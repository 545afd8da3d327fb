import ParserRelay.Validation
/-!
# What the checks accept

The value that a check gives, told without its issues.
-/
namespace ParserRelay.Checked

variable {α β γ : Type} {field : Text} {check : Json → Checked α} {x : Checked α} {y : Checked β}
  {f : α → β → γ} {v : Json} {s : WideText} {members : Json.Members} {a : α} {c : γ}

theorem string_eq_ok_iff : string field v = .ok s ↔ v = .str s := by
  cases v <;> simp [string, fault]

theorem required_eq_ok_iff {v : Option Json} :
    required field check v = .ok a ↔ ∃ w, v = some w ∧ check w = .ok a := by
  cases v <;> simp [required, fault]

theorem both_eq_ok_iff : both f x y = .ok c ↔ ∃ a b, x = .ok a ∧ y = .ok b ∧ f a b = c := by
  cases x <;> cases y <;> simp [both]

theorem withPlainKeys_eq_ok_iff : withPlainKeys members x = .ok a ↔
    (∀ key ∈ Json.Members.keys members, (WideText.toText? key).isSome) ∧ x = .ok a := by
  rw [withPlainKeys]
  split
  · rename_i h
    simpa [Json.Members.keys] using fun _ => List.all_eq_true.mp h
  · rename_i h
    simp only [reduceCtorEq, false_iff, not_and]
    intro hplain
    exact absurd (List.all_eq_true.mpr fun e he => hplain _ (List.mem_map_of_mem he)) h

end ParserRelay.Checked
