import MinangScript.Proofs.Machine.Moments
import MinangScript.Proofs.Machine.Outlook
import MinangScript.Proofs.Machine.Session
import MinangScript.Repl

/-! # Conversations as runs one after the other

What a conversation does to its machine is what the sources among its lines do, run one after the other,
each on the machine that the one before it left, whether or not that one failed. What it says is a prompt
and a reply for each line that it comes to, and the reply to a line is known from the line and the machine
at that time.
-/

namespace MinangScript

/-- The error that a computation ended with, if it did. -/
def Outcome.error? {ε α : Type} : Outcome ε α → Option ε
  | failed e _ => some e
  | done _ _ | outOfFuel => none

/-- Runs sources one after the other, each on the machine that the one before it left, with a value or
    with an error; `none` if the fuel is not enough for one of them. -/
def Machine.runAll (limit fuel : Nat) (sources : List String) (m : Machine) : Option Machine :=
  sources.foldlM (fun now source => (now.run limit fuel source).machine?) m

theorem Machine.runAll_append (limit fuel : Nat) (first second : List String) (m : Machine) :
    m.runAll limit fuel (first ++ second) =
      (m.runAll limit fuel first).bind (·.runAll limit fuel second) :=
  List.foldlM_append

/-! ## Output is only added -/

/-- The journal of the later machine has all entries of the earlier one, below what came since. -/
def Machine.Continues (m m' : Machine) : Prop :=
  m.journal.latest <:+ m'.journal.latest

theorem Machine.Continues.stable : Eval.Stable Machine.Continues where
  refl := fun _ => List.suffix_rfl
  trans := List.IsSuffix.trans
  assign := fun _ _ _ => List.suffix_rfl
  declare := fun _ _ _ => List.suffix_rfl
  record := fun _ _ _ => List.suffix_append _ _
  call := fun inside => (List.suffix_cons _ _).trans inside

theorem Machine.Continues.lines {m m' : Machine} (continues : m.Continues m') :
    m'.journal.lines =
      m.journal.lines ++ (m.journal.since m'.journal).filterMap Entry.printed? := by
  obtain ⟨later, all⟩ := continues
  have since : m.journal.since m'.journal = later.reverse := by
    simp only [Journal.since, ← all, List.length_append, Nat.add_sub_cancel, List.take_left']
  rw [since, ← Journal.lines_addAll, Journal.addAll, List.reverse_reverse, all]

/-! ## Sources that can not be read -/

theorem Machine.SameButNotes.recordAll (m : Machine) {entries : List Entry}
    (notes : entries.filterMap Entry.printed? = []) : m.SameButNotes (m.recordAll entries) where
  env := rfl
  functions := rfl
  depth := rfl
  nextTag := rfl
  lines := by rw [Machine.recordAll, Journal.lines_addAll, notes, List.append_nil]

theorem readProgram_prints_nothing (name source : String) :
    (readProgram name source).entries.filterMap Entry.printed? = [] := by
  unfold readProgram readTokens
  dsimp only
  split <;> simp [Entry.printed?]

/-- A source that can not be read only leaves notes. -/
theorem Machine.run_unreadable (limit fuel : Nat) (source : String) (m : Machine) (e : ParseError)
    (unreadable : parse source = .error e) :
    ∃ m', m.run limit fuel source = .failed (.parse e) m' ∧ m.SameButNotes m' := by
  refine ⟨_, ?_, .recordAll m (readProgram_prints_nothing inputName source)⟩
  simp only [Machine.run, readProgram_outcome, unreadable]

namespace Repl

/-! ## What a line asks for -/

/-- A line without the blanks on both sides. -/
def trimmed (line : String) : String :=
  String.ofList (trim line.toList)

/-- A line without blanks around it is a source unless it is empty or begins with a point. -/
def isSource (line : String) : Bool :=
  line ≠ "" && line.toList.head? ≠ some '.'

/-- The lines that a conversation comes to: those up to the first that asks to leave. -/
def heard : List String → List String
  | [] => []
  | line :: rest => if trimmed line = ".exit" then [line] else line :: heard rest

/-- The sources among the lines. -/
def sources (lines : List String) : List String :=
  (lines.map trimmed).filter isSource

/-- The sources that a request asks to run. -/
def Request.sources : Request → List String
  | .run source => [source]
  | _ => []

/-- What a line without blanks around it asks for. -/
inductive Asks : String → Request → Prop where
  | nothing : Asks "" .nothing
  | leave : Asks ".exit" .leave
  | command {line : String} {request : Request} : line.toList.head? = some '.' → line ≠ ".exit" →
      request.sources = [] → request ≠ .leave → Asks line request
  | run {line : String} : isSource line → Asks line (.run line)

theorem asks_ofLine (line : String) : Asks (trimmed line) (Request.ofLine line) := by
  unfold trimmed Request.ofLine
  generalize trim line.toList = chars
  dsimp only
  split
  · rename_i empty
    rw [List.isEmpty_iff.mp empty]
    exact .nothing
  rename_i nonempty
  split
  · rename_i exit
    rw [exit]
    exact .leave
  rename_i stays
  obtain ⟨c, rest, rfl⟩ := List.ne_nil_iff_exists_cons.mp (mt List.isEmpty_iff.mpr nonempty)
  by_cases point : c = '.'
  · refine .command (by simp [point]) stays ?_ ?_
    all_goals simp only [point, Lexeme.startsWith, BEq.rfl, if_true]
    · repeat' split
      all_goals rfl
    · repeat' split
      all_goals exact Request.noConfusion
  · have differs : ∀ text : String, text.toList.head? = some '.' → String.ofList (c :: rest) ≠ text := by
      rintro text begins rfl
      exact point (by simpa using begins)
    have noMark : ¬".analyze ".toList.isPrefixOf (c :: rest) := by
      simp [List.isPrefixOf, Ne.symm point]
    have noPoint : ¬Lexeme.startsWith '.' (c :: rest) := by simpa [Lexeme.startsWith] using point
    rw [if_neg (differs _ (by decide)), if_neg (differs _ (by decide)), if_neg noMark, if_neg noPoint]
    exact .run (by simp [isSource, point])

theorem sources_ofLine (line : String) : (Request.ofLine line).sources = sources [line] := by
  have asks := asks_ofLine line
  simp only [sources, List.map_cons, List.map_nil]
  generalize trimmed line = text, Request.ofLine line = request at asks ⊢
  cases asks with
  | nothing | leave => rfl
  | command point _ noRun _ => rw [noRun, List.filter_cons_of_neg (by simp [isSource, point])]; rfl
  | run is => rw [List.filter_cons_of_pos is]; rfl

theorem ofLine_eq_leave_iff {line : String} : Request.ofLine line = .leave ↔ trimmed line = ".exit" := by
  have asks := asks_ofLine line
  generalize trimmed line = text, Request.ofLine line = request at asks ⊢
  cases asks with
  | nothing => simp
  | leave => simp
  | command _ other _ stays => exact iff_of_false stays other
  | run is =>
      refine iff_of_false Request.noConfusion ?_
      rintro rfl
      exact absurd is (by decide)

/-! ## Replies -/

/-- The error that a request fails with, if it does: that of running a source, or that of reading one
    which is only looked at. -/
def failure? (limit fuel : Nat) (now : Machine) : Request → Option RunError
  | .run source => (now.run limit fuel source).error?
  | .analyze code =>
    match parse code with
    | .error e => some (.parse e)
    | .ok _ => none
  | _ => none

/-- What is said of a source that is looked at, besides the report of an error. -/
def glance (code : String) : String :=
  match tokenize code, parse code with
  | .error _, _ => ""
  | .ok tokens, .error _ => "tokens: " ++ toString (tokens.length - 1) ++ "\n"
  | .ok _, .ok _ => (analysis code).1

/-- What is said to a request besides the report of an error. The machine plays no part in it. -/
def remark : Request → String
  | .help => helpText
  | .examples => examplesText
  | .unknown line => "unknown command " ++ line ++ ", try .help\n"
  | .analyze code => glance code
  | .nothing | .leave | .run _ => ""

/-- The report of an error, if there is one. -/
def report (failure : Option RunError) : String :=
  failure.elim "" (errorText ·.message)

theorem analysis_text (limit fuel : Nat) (now : Machine) (code : String) :
    (analysis code).1 =
      remark (.analyze code) ++ report (failure? limit fuel now (.analyze code)) := by
  change _ = glance code ++ report (failure? limit fuel now (.analyze code))
  simp only [glance, failure?, report]
  cases lexed : tokenize code with
  | error e =>
      have tokens : (readTokens code).outcome = .error (.lex e) :=
        congrArg (Except.mapError ParseError.lex) lexed
      have whole : parse code = .error (.lex e) := by rw [parse, lexed]
      simp [analysis, tokens, whole, RunError.message, ParseError.message]
  | ok tokens =>
      have same : parse code = (parseTokens tokens).mapError .parse := by rw [parse, lexed]
      cases parsed : parseTokens tokens with
      | error e =>
          have read : (readTokens code).outcome = .ok tokens :=
            congrArg (Except.mapError ParseError.lex) lexed
          have whole : parse code = .error (.parse e) :=
            same.trans (congrArg (Except.mapError ParseError.parse) parsed)
          simp [analysis, read, whole, parsed, RunError.message, ParseError.message]
      | ok program =>
          have whole : parse code = .ok program :=
            same.trans (congrArg (Except.mapError ParseError.parse) parsed)
          simp [whole]

theorem analysis_prints_nothing (code : String) : (analysis code).2.filterMap Entry.printed? = [] := by
  simp [analysis, readTokens, Entry.printed?]

variable {limit fuel : Nat} {now : Machine} {request : Request} {a : Answer}

/-- What is to be known of the answer to a request. -/
structure Answers (limit fuel : Nat) (now : Machine) (request : Request) (a : Answer) : Prop where
  machine : now.runAll limit fuel request.sources = some a.machine
  reply : a.reply = remark request ++ report (failure? limit fuel now request)
  output : a.machine.journal.lines = now.journal.lines ++ a.entries.filterMap Entry.printed?
  goesOn : a.goesOn = false ↔ request = .leave

theorem runAll_singleton (limit fuel : Nat) (source : String) (m : Machine) :
    m.runAll limit fuel [source] = (m.run limit fuel source).machine? := by
  simp [Machine.runAll]

theorem answers_of_run {source : String} {m' : Machine}
    (ends : (now.run limit fuel source).EndsIn m') :
    Answers limit fuel now (.run source)
      ⟨report (now.run limit fuel source).error?,
        .noted (.line source) :: now.journal.since m'.journal, m', true⟩ where
  machine := (runAll_singleton ..).trans (Outcome.machine?_eq_some_iff.mpr ends)
  reply := (String.empty_append ..).symm
  output := (Machine.Continues.stable.run ends).lines
  goesOn := by simp

/-- A request is answered unless the fuel is not enough for the source that it runs. -/
theorem answer_cases (limit fuel : Nat) (now : Machine) (request : Request) :
    (answer limit fuel now request = none ∧ now.runAll limit fuel request.sources = none) ∨
      ∃ a, answer limit fuel now request = some a ∧ Answers limit fuel now request a := by
  cases request with
  | run source =>
      cases ran : now.run limit fuel source with
      | done value m' =>
          have ends : (now.run limit fuel source).EndsIn m' := by rw [ran]; rfl
          have answers := answers_of_run ends
          rw [ran] at answers
          exact .inr ⟨_, by rw [answer, runLine, ran]; rfl, answers⟩
      | failed e m' =>
          have ends : (now.run limit fuel source).EndsIn m' := by rw [ran]; rfl
          have answers := answers_of_run ends
          rw [ran] at answers
          exact .inr ⟨_, by rw [answer, runLine, ran]; rfl, answers⟩
      | outOfFuel =>
          refine .inl ⟨by rw [answer, runLine, ran], ?_⟩
          rw [Request.sources, runAll_singleton, ran]
          rfl
  | analyze code =>
      refine .inr ⟨⟨(analysis code).1, (analysis code).2, now, true⟩, rfl, rfl,
        analysis_text limit fuel now code, ?_, by simp⟩
      rw [analysis_prints_nothing, List.append_nil]
  | nothing | leave | help | examples | unknown =>
      exact .inr ⟨_, rfl, rfl, (String.append_empty ..).symm, (List.append_nil _).symm, by simp⟩

/-! ## Lines one after the other -/

/-- A printed line, if the event is one. -/
def Event.printed? : Event → Option (Channel × String)
  | said _ => none
  | entered entry => entry.printed?

/-- The replies to lines, one each: what there is to say to a line, and a report if it fails on the machine
    that the sources before it left. -/
inductive Replied (limit fuel : Nat) : List String → Machine → List String → Prop where
  | nil {m : Machine} : Replied limit fuel [] m []
  | cons {line : String} {rest replies : List String} {m m' : Machine} :
      m.runAll limit fuel (sources [line]) = some m' → Replied limit fuel rest m' replies →
      Replied limit fuel (line :: rest) m
        ((remark (Request.ofLine line) ++ report (failure? limit fuel m (Request.ofLine line))) ::
          replies)

/-- What is said after the last reply: there is one more prompt if no line asked to leave. -/
def ending (lines : List String) : List String :=
  if ".exit" ∈ lines.map trimmed then [farewell] else [prompt, "\n", farewell]

/-- What is to be known of a conversation that comes to the lines and then ends with what is said last. -/
structure Talked (limit fuel : Nat) (lines finish : List String) (m last : Machine)
    (events : List Event) : Prop where
  machine : m.runAll limit fuel (sources lines) = some last
  output : last.journal.lines = m.journal.lines ++ events.filterMap Event.printed?
  said : ∃ replies, Replied limit fuel lines m replies ∧
    events.filterMap Event.said? = replies.flatMap ([prompt, ·]) ++ finish

theorem sources_cons (line : String) (rest : List String) :
    sources (line :: rest) = sources [line] ++ sources rest := by
  simp only [sources, List.map_cons, List.map_nil, ← List.filter_append, List.singleton_append]

theorem Answer.said_events (a : Answer) : a.events.filterMap Event.said? = [a.reply] := by
  simp [Answer.events, List.filterMap_map, Function.comp_def, Event.said?]

theorem Answer.printed_events (a : Answer) :
    a.events.filterMap Event.printed? = a.entries.filterMap Entry.printed? := by
  simp [Answer.events, List.filterMap_map, Function.comp_def, Event.printed?]

theorem talked_nil (limit fuel : Nat) (finish : List String) (m : Machine) :
    Talked limit fuel [] finish m m (finish.map .said) where
  machine := rfl
  output := by simp [List.filterMap_map, Function.comp_def, Event.printed?]
  said := ⟨[], .nil, by simp [List.filterMap_map, Function.comp_def, Event.said?]⟩

theorem Talked.cons {line : String} {rest finish : List String} {m last : Machine}
    {events : List Event} (answers : Answers limit fuel m (Request.ofLine line) a)
    (talked : Talked limit fuel rest finish a.machine last events) :
    Talked limit fuel (line :: rest) finish m last (.said prompt :: a.events ++ events) := by
  have machine := answers.machine
  rw [sources_ofLine] at machine
  obtain ⟨replies, replied, said⟩ := talked.said
  refine ⟨?_, ?_, a.reply :: replies, ?_, ?_⟩
  · rw [sources_cons, Machine.runAll_append, machine]
    exact talked.machine
  · rw [talked.output, answers.output, List.filterMap_append, List.filterMap_cons_none rfl,
      a.printed_events, List.append_assoc]
  · rw [answers.reply]
    exact .cons machine replied
  · have prompted : (Event.said prompt).said? = some prompt := rfl
    rw [List.filterMap_append, List.filterMap_cons_some prompted, a.said_events, said]
    rfl

theorem heard_of_exit {line : String} (exit : trimmed line = ".exit") (rest : List String) :
    heard (line :: rest) = [line] ∧ ending (line :: rest) = [farewell] :=
  ⟨if_pos exit, if_pos (by simp [exit])⟩

theorem heard_of_stays {line : String} (stays : trimmed line ≠ ".exit") (rest : List String) :
    heard (line :: rest) = line :: heard rest ∧ ending (line :: rest) = ending rest :=
  ⟨if_neg stays, by simp only [ending, List.map_cons, List.mem_cons, stays.symm, false_or]⟩

/-- The first lines are enough to say that the fuel is not. -/
theorem runAll_heard_of_none {line : String} {m : Machine} (rest : List String)
    (noRun : m.runAll limit fuel (sources [line]) = none) :
    m.runAll limit fuel (sources (heard (line :: rest))) = none := by
  by_cases exit : trimmed line = ".exit"
  · rwa [(heard_of_exit exit rest).1]
  · rw [(heard_of_stays exit rest).1, sources_cons, Machine.runAll_append, noRun]
    rfl

theorem talk_cases (limit fuel : Nat) (lines : List String) (m : Machine) (before : List Event) :
    (talk limit fuel lines m before = none ∧ m.runAll limit fuel (sources (heard lines)) = none) ∨
      ∃ last events, talk limit fuel lines m before = some (last, before.reverse ++ events) ∧
        Talked limit fuel (heard lines) (ending lines) m last events := by
  induction lines generalizing m before with
  | nil => exact .inr ⟨m, _, by simp [talk, turn], talked_nil limit fuel [prompt, "\n", farewell] m⟩
  | cons line rest ih =>
      rw [talk, turn]
      rcases answer_cases limit fuel m (Request.ofLine line) with ⟨stuck, noRun⟩ | ⟨a, answered, answers⟩
      · rw [sources_ofLine] at noRun
        rw [stuck]
        exact .inl ⟨rfl, runAll_heard_of_none rest noRun⟩
      · rw [answered, Option.map_some, Option.bind_eq_bind, Option.bind_some]
        dsimp only
        by_cases exit : trimmed line = ".exit"
        · have leaves : a.goesOn = false := answers.goesOn.mpr (ofLine_eq_leave_iff.mpr exit)
          obtain ⟨all, finish⟩ := heard_of_exit exit rest
          rw [all, finish, leaves]
          exact .inr ⟨a.machine, _, by simp, (talked_nil limit fuel [farewell] a.machine).cons answers⟩
        · have stays : a.goesOn = true :=
            Bool.of_not_eq_false (mt answers.goesOn.mp (mt ofLine_eq_leave_iff.mp exit))
          obtain ⟨all, finish⟩ := heard_of_stays exit rest
          rw [all, finish, stays, if_pos rfl, if_pos rfl, List.append_nil]
          rcases ih a.machine (a.events.reverse ++ .said prompt :: before) with
            ⟨stuck, noRun⟩ | ⟨last, events, talks, talked⟩
          · refine .inl ⟨stuck, ?_⟩
            rw [sources_cons, Machine.runAll_append, ← sources_ofLine, answers.machine]
            exact noRun
          · exact .inr ⟨last, _, by simp [talks], talked.cons answers⟩

theorem Replied.length {lines replies : List String} {m : Machine}
    (replied : Replied limit fuel lines m replies) : replies.length = lines.length := by
  induction replied with
  | nil => rfl
  | cons _ _ ih => rw [List.length_cons, List.length_cons, ih]

/-- Commands leave the machine alone, and print nothing. -/
theorem answer_of_point (limit fuel : Nat) (line : String) (now : Machine)
    (point : (trimmed line).toList.head? = some '.') :
    ∃ a, answer limit fuel now (Request.ofLine line) = some a ∧ a.machine = now ∧
      a.entries.filterMap Entry.printed? = [] := by
  have noSource : sources [line] = [] := List.filter_cons_of_neg (by simp [isSource, point])
  have unchanged : now.runAll limit fuel (Request.ofLine line).sources = some now := by
    rw [sources_ofLine, noSource]
    rfl
  rcases answer_cases limit fuel now (Request.ofLine line) with ⟨-, noRun⟩ | ⟨a, answered, answers⟩
  · cases noRun.symm.trans unchanged
  · have same : a.machine = now := Option.some.inj (answers.machine.symm.trans unchanged)
    have output := answers.output
    rw [same] at output
    exact ⟨a, answered, same, List.self_eq_append_right.mp output⟩

/-- A conversation does to its machine what the sources among the lines that it comes to do, run one after
    the other whether or not they fail. Commands leave the machine alone, and a source that can not be
    read leaves only notes. Each line that it comes to gets a prompt and a reply, in which a failure is
    reported once, and there is one more prompt at the end of the input unless a line asked to leave. -/
theorem conversations_are_runs_in_order (limit fuel : Nat) (input : String) (m : Machine) :
    (conversation limit fuel input m).map Prod.fst =
        m.runAll limit fuel (sources (heard (lines input))) ∧
      (∀ line now, (trimmed line).toList.head? = some '.' →
        ∃ a, answer limit fuel now (Request.ofLine line) = some a ∧ a.machine = now ∧
          a.entries.filterMap Entry.printed? = []) ∧
      (∀ source (now : Machine) e, parse source = .error e →
        ∃ now', now.run limit fuel source = .failed (.parse e) now' ∧ now.SameButNotes now') ∧
      ∀ last events, conversation limit fuel input m = some (last, events) →
        last.journal.lines = m.journal.lines ++ events.filterMap Event.printed? ∧
        ∃ replies, replies.length = (heard (lines input)).length ∧
          Replied limit fuel (heard (lines input)) m replies ∧
          events.filterMap Event.said? =
            greeting :: replies.flatMap ([prompt, ·]) ++ ending (lines input) := by
  have commands := @answer_of_point limit fuel
  have unreadable := @Machine.run_unreadable limit fuel
  unfold conversation
  rcases talk_cases limit fuel (lines input) m [.said greeting] with
    ⟨stuck, noRun⟩ | ⟨last, events, talks, talked⟩
  · rw [stuck, noRun]
    exact ⟨rfl, commands, unreadable, nofun⟩
  · rw [talks]
    refine ⟨talked.machine.symm, commands, unreadable, ?_⟩
    rintro _ _ ⟨⟩
    obtain ⟨replies, replied, said⟩ := talked.said
    exact ⟨talked.output, replies, replied.length, replied, congrArg (greeting :: ·) said⟩

/-- Lines with blanks, an error of running, two of reading, a wish to leave, and one line too many. -/
def fewLines : String :=
  " cetak \"x\"\r\nh()\n)\n.analyze a b\n .exit \ncetak \"y\"\n"

theorem conversations_are_runs_in_order_few_lines :
    ∃ last events replies, conversation 5 30 fewLines (.start .lexical) = some (last, events) ∧
      (Machine.start .lexical).runAll 5 30 ["cetak \"x\"", "h()", ")"] = some last ∧
      last.journal.lines = [(.log, "x")] ∧
      replies.length = 5 ∧ Replied 5 30 (heard (lines fewLines)) (.start .lexical) replies ∧
      events.filterMap Event.said? = greeting :: replies.flatMap ([prompt, ·]) ++ [farewell] := by
  have printed : (conversation 5 30 fewLines (.start .lexical)).map
      (·.2.filterMap Event.printed?) = some [(.log, "x")] := by decide +kernel
  have ran : sources (heard (lines fewLines)) = ["cetak \"x\"", "h()", ")"] := by decide +kernel
  have five : (heard (lines fewLines)).length = 5 := by decide +kernel
  have left : ending (lines fewLines) = [farewell] := by decide +kernel
  obtain ⟨⟨last, events⟩, talks, prints⟩ := Option.map_eq_some_iff.mp printed
  obtain ⟨machine, -, -, talked⟩ := conversations_are_runs_in_order 5 30 fewLines (.start .lexical)
  obtain ⟨output, replies, length, replied, said⟩ := talked last events talks
  rw [talks, ran] at machine
  rw [prints] at output
  rw [five] at length
  rw [left] at said
  exact ⟨last, events, replies, talks, machine.symm, output, length, replied, said⟩

end Repl

end MinangScript
