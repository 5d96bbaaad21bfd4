import MinangScript.Text.Replace

/-! # What replacing does to a text

A text without the pattern stays as it is. A character that is not in the pattern divides a text
into parts in which the pattern is replaced separately, since no occurrence reaches across it. If
the pattern gives way to something shorter, a text with the pattern gets shorter.
-/

namespace MinangScript

section Replace

variable {pattern replacement text : List Char}

/-- What belongs to an occurrence before is passed over. -/
theorem replaceFrom_drop (taken : Nat) (text : List Char) :
    replaceFrom pattern replacement taken text =
      replaceFrom pattern replacement 0 (text.drop taken) := by
  induction text generalizing taken with
  | nil => simp [replaceFrom]
  | cons c rest ih =>
      cases taken with
      | zero => rfl
      | succ taken => rw [replaceFrom, ih, List.drop_succ_cons]

theorem replaceFrom_opens (nonempty : pattern ≠ []) (text : List Char) :
    replaceFrom pattern replacement 0 (pattern ++ text) =
      replacement ++ replaceFrom pattern replacement 0 text := by
  cases pattern with
  | nil => exact absurd rfl nonempty
  | cons c rest =>
      have opens : (c :: rest).isPrefixOf (c :: (rest ++ text)) = true :=
        List.isPrefixOf_iff_prefix.mpr ⟨text, rfl⟩
      rw [List.cons_append, replaceFrom, if_pos opens, replaceFrom_drop]
      simp

theorem replaceFrom_cons {c : Char} (opensNot : ¬ pattern <+: c :: text) :
    replaceFrom pattern replacement 0 (c :: text) =
      c :: replaceFrom pattern replacement 0 text := by
  rw [replaceFrom, if_neg (mt List.isPrefixOf_iff_prefix.mp opensNot)]

theorem replaceFrom_of_absent (absent : ¬ pattern <:+: text) :
    replaceFrom pattern replacement 0 text = text := by
  induction text with
  | nil => rfl
  | cons c rest ih =>
      rw [List.infix_cons_iff, not_or] at absent
      rw [replaceFrom_cons absent.1, ih absent.2]

/-- An occurrence that begins in front of a character that is not in the pattern ends there too. -/
theorem prefix_of_prefix_append {c : Char} {behind : List Char} (other : c ∉ pattern)
    (opens : pattern <+: text ++ c :: behind) : pattern <+: text := by
  have reached : text ++ [c] <+: text ++ c :: behind := ⟨behind, by simp⟩
  obtain shorter | longer := List.prefix_or_prefix_of_prefix opens reached
  · obtain rfl | inside := List.prefix_concat_iff.mp shorter
    · exact absurd (by simp) other
    · exact inside
  · exact absurd (longer.subset (by simp)) other

theorem replaceFrom_split {c : Char} (other : c ∉ pattern) (nonempty : pattern ≠ [])
    (text behind : List Char) :
    replaceFrom pattern replacement 0 (text ++ c :: behind) =
      replaceFrom pattern replacement 0 text ++ c :: replaceFrom pattern replacement 0 behind := by
  -- The induction goes by length, since an occurrence is replaced at once.
  induction length : text.length using Nat.strongRecOn generalizing text with
  | ind n ih =>
      by_cases opens : pattern <+: text
      · obtain ⟨rest, rfl⟩ := opens
        have shorter : rest.length < n := by
          have := List.length_pos_iff.mpr nonempty
          rw [List.length_append] at length
          omega
        rw [List.append_assoc, replaceFrom_opens nonempty, replaceFrom_opens nonempty,
          ih rest.length shorter rest rfl, List.append_assoc]
      · have opensNot : ¬ pattern <+: text ++ c :: behind :=
          mt (prefix_of_prefix_append other) opens
        cases text with
        | nil => rw [List.nil_append, replaceFrom_cons opensNot]; rfl
        | cons d rest =>
            rw [List.cons_append] at opensNot ⊢
            rw [replaceFrom_cons opensNot, replaceFrom_cons opens,
              ih rest.length (by rw [← length]; simp) rest rfl, List.cons_append]

/-- A shorter replacement makes no text longer, and every text shorter that has the pattern. -/
theorem length_replaceFrom (shorter : replacement.length < pattern.length) (text : List Char) :
    (replaceFrom pattern replacement 0 text).length ≤ text.length ∧
      (pattern <:+: text → (replaceFrom pattern replacement 0 text).length < text.length) := by
  have nonempty : pattern ≠ [] := List.ne_nil_of_length_pos (Nat.zero_lt_of_lt shorter)
  induction length : text.length using Nat.strongRecOn generalizing text with
  | ind n ih =>
      by_cases opens : pattern <+: text
      · obtain ⟨rest, rfl⟩ := opens
        rw [List.length_append] at length
        have least := (ih rest.length (by omega) rest rfl).1
        rw [replaceFrom_opens nonempty, List.length_append]
        exact ⟨by omega, fun _ => by omega⟩
      · cases text with
        | nil =>
            exact ⟨by simp [replaceFrom], fun present =>
              absurd (List.eq_nil_of_infix_nil present) nonempty⟩
        | cons c rest =>
            rw [List.length_cons] at length
            obtain ⟨least, less⟩ := ih rest.length (by omega) rest rfl
            rw [replaceFrom_cons opens, List.length_cons, List.infix_cons_iff]
            refine ⟨by omega, fun present => ?_⟩
            have := less (present.resolve_left opens)
            omega

end Replace

end MinangScript
