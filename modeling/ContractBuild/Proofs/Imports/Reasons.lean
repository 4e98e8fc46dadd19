import ContractBuild.Proofs.Imports.Segments

/-!
# Messages with other reasons

Where a message is nothing but its reports and what stands between them, other reasons change the
reports only. A remark without quotation marks on one line lies between two marks of a report, or
outside of the reports; so if the new reasons do not bring it along, it was there before.
-/

namespace ContractBuild.Imports

section

variable {remark u v : List Char} {c : Char}

theorem prefix_of_prefix_append (clear : c ∉ remark) (start : remark <+: u ++ c :: v) :
    remark <+: u := by
  refine List.prefix_of_prefix_length_le start (List.prefix_append _ _) ?_
  by_contra long
  obtain ⟨tail, eq⟩ := start
  have short : u.length < remark.length := Nat.lt_of_not_le long
  have inside : remark[u.length] = c := by
    have same := congrArg (·[u.length]?) eq
    simpa [List.getElem?_append_left short, List.getElem?_eq_getElem short] using same
  exact clear (inside ▸ List.getElem_mem short)

theorem infix_append_cons_iff (clear : c ∉ remark) :
    remark <:+: u ++ c :: v ↔ remark <:+: u ∨ remark <:+: v := by
  constructor
  · intro inside
    induction u with
    | nil =>
      rcases List.infix_cons_iff.1 inside with start | inside
      · exact .inl (prefix_of_prefix_append (u := []) clear start).isInfix
      · exact .inr inside
    | cons x u ih =>
      rcases List.infix_cons_iff.1 inside with start | inside
      · exact .inl (prefix_of_prefix_append (u := x :: u) clear start).isInfix
      · exact (ih inside).imp_left List.infix_cons
  · rintro (inside | inside)
    · exact inside.trans (List.prefix_append _ _).isInfix
    · exact (List.infix_cons inside).trans (List.suffix_append _ _).isInfix

end

namespace Segment

variable {remark rest : List Char} {answer : String → Option String}

theorem infix_append_endsLine (line : '\n' ∉ remark) {u : List Char} (ends : EndsLine rest)
    (inside : remark <:+: u ++ rest) : remark <:+: u ∨ remark <:+: rest := by
  cases rest with
  | nil => exact .inl (by rwa [List.append_nil] at inside)
  | cons c rest =>
    obtain rfl := ends c rfl
    exact ((infix_append_cons_iff line).1 inside).imp_right List.infix_cons

theorem endsLine_answered (ends : EndsLine rest) :
    EndsLine ((all rest).flatMap (answered answer)) := by
  cases rest with
  | nil => exact nofun
  | cons c rest =>
    obtain rfl := ends c rfl
    have front : ¬ opening <+: '\n' :: rest := fun ⟨tail, eq⟩ => by cases eq
    rw [all_other (report?_eq_none front), List.flatMap_cons]
    rintro c ⟨⟩
    rfl

theorem infix_missing_iff (quotes : '"' ∉ remark) {u path reason : List Char} :
    remark <:+: u ++ ((missing path reason).chars ++ rest) ↔
      remark <:+: u ++ opening.dropLast ∨ remark <:+: path ∨
        remark <:+: middle.tail ++ reason ++ rest := by
  have split : u ++ ((missing path reason).chars ++ rest) =
      (u ++ opening.dropLast) ++ '"' :: (path ++ '"' :: (middle.tail ++ reason ++ rest)) := by
    simp [chars, opening, middle]
  rw [split, infix_append_cons_iff quotes, infix_append_cons_iff quotes]

theorem infix_of_answered (quotes : '"' ∉ remark) (line : '\n' ∉ remark)
    (free : ∀ path new, answer path = some new → ¬ remark <:+: middle.tail ++ new.toList)
    (s u : List Char) (inside : remark <:+: u ++ (all s).flatMap (answered answer)) :
    remark <:+: u ++ s := by
  -- The remark may begin in the characters `u` that were passed, so these are kept with it.
  induction length : s.length using Nat.strongRecOn generalizing s u with
  | ind n ih =>
    subst length
    cases s with
    | nil => exact inside
    | cons c s =>
      rcases all_cases c s with ⟨path, reason, rest, sound, ends, eq, cut⟩ | cut
      · have shorter : rest.length < (c :: s).length := by
          rw [eq, List.length_append]
          exact Nat.lt_add_of_pos_left (Nat.succ_pos _)
        have behind : remark <:+: (all rest).flatMap (answered answer) → remark <:+: rest :=
          fun inside => by simpa using ih _ shorter rest [] (by simpa using inside) rfl
        rw [eq, infix_missing_iff quotes]
        rw [cut, List.flatMap_cons] at inside
        cases told : answer (.ofList path) with
        | none =>
          rw [answered_of_none told, infix_missing_iff quotes] at inside
          refine inside.imp_right (Or.imp_right fun inside => ?_)
          rcases infix_append_endsLine line (endsLine_answered ends) inside with inside | inside
          · exact inside.trans (List.prefix_append _ _).isInfix
          · exact (behind inside).trans (List.suffix_append _ _).isInfix
        | some new =>
          rw [answered_of_some told, infix_missing_iff quotes] at inside
          refine inside.imp_right (Or.imp_right fun inside => ?_)
          rcases infix_append_endsLine line (endsLine_answered ends) inside with inside | inside
          · exact absurd inside (free _ new told)
          · exact (behind inside).trans (List.suffix_append _ _).isInfix
      · rw [cut, List.flatMap_cons] at inside
        have moved := ih _ (Nat.lt_succ_self _) s (u ++ [c]) (by simpa [answered] using inside) rfl
        simpa using moved

end Segment

variable {answer : String → Option String}

theorem infix_of_withReasons {remark : List Char} {message : String} (quotes : '"' ∉ remark)
    (line : '\n' ∉ remark)
    (free : ∀ path new, answer path = some new → ¬ remark <:+: Segment.middle.tail ++ new.toList)
    (inside : remark <:+: (withReasons answer message).toList) : remark <:+: message.toList := by
  rw [withReasons_eq, String.toList_ofList] at inside
  exact Segment.infix_of_answered quotes line free message.toList [] inside

theorem withReasons_of_no_opening {message : String}
    (absent : ¬ Segment.opening <:+: message.toList) : withReasons answer message = message := by
  rw [withReasons_eq, Segment.all_of_no_opening absent, Segment.flatMap_answered_other,
    String.ofList_toList]

end ContractBuild.Imports
