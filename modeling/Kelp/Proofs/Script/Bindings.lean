import Kelp.Proofs.Script.Loading

/-!
# Bindings

What the names of a program become where a script binds them.

- `isReserved_binding`, `isIdent_binding`: a binding is an identifier that scripts do not reserve.
- `binding_inj`: different names have different bindings.
- `binding_eq_iff`: a binding is a given name exactly when it was made from this name and the name
  is not reserved.
-/

namespace Kelp.Script

/-- A name of a program has no dollar sign. -/
theorem dollar_notMem {name : String} (h : IsName name) : '$' ∉ name.toList :=
  fun hc => absurd (h.word _ hc) (by decide)

theorem isReserved_iff {name : String} : isReserved name = true ↔ name ∈ reservedWords :=
  List.contains_iff_mem

/-- No reserved word has a dollar sign either. -/
theorem dollar_notMem_of_isReserved {name : String} (h : isReserved name = true) :
    '$' ∉ name.toList := by
  have hwords : ∀ w ∈ reservedWords, '$' ∉ w.toList := by decide
  exact hwords name (isReserved_iff.1 h)

theorem binding_of_isReserved {name : String} (h : isReserved name = true) :
    binding name = "$" ++ name := by
  rw [binding, if_pos h]

theorem binding_of_not_isReserved {name : String} (h : isReserved name = false) :
    binding name = name := by
  rw [binding, if_neg (Bool.eq_false_iff.1 h)]

/-- A binding without a dollar sign is the name itself. -/
theorem binding_eq_iff {name other : String} (hother : '$' ∉ other.toList) :
    binding name = other ↔ name = other ∧ isReserved name = false := by
  cases h : isReserved name with
  | false =>
    rw [binding_of_not_isReserved h]
    simp
  | true =>
    -- the binding has a dollar sign, and the other name has none
    rw [binding_of_isReserved h]
    constructor
    · rintro rfl
      exact absurd hother (by simp)
    · rintro ⟨-, h⟩
      cases h

/-- **Bindings are distinct**: names without a dollar sign share one only if they are equal. -/
theorem binding_inj {name other : String} (hname : IsName name) (hother : IsName other) :
    binding name = binding other ↔ name = other := by
  constructor
  · intro h
    cases hreserved : isReserved other with
    | false =>
      rw [binding_of_not_isReserved hreserved] at h
      exact ((binding_eq_iff (dollar_notMem hother)).1 h).1
    | true =>
      cases hreserved' : isReserved name with
      | false =>
        rw [binding_of_not_isReserved hreserved'] at h
        exact ((binding_eq_iff (dollar_notMem hname)).1 h.symm).1.symm
      | true =>
        -- both have a dollar sign in front, behind which the names stand
        rw [binding_of_isReserved hreserved, binding_of_isReserved hreserved'] at h
        exact (String.append_right_inj "$").1 h
  · exact congrArg binding

/-- So bindings are distinct exactly if the names are. -/
theorem nodup_map_binding_iff {names : List String} (h : ∀ x ∈ names, IsName x) :
    (names.map binding).Nodup ↔ names.Nodup :=
  ⟨List.Nodup.of_map binding,
    List.Nodup.map_on fun x hx y hy hxy => (binding_inj (h x hx) (h y hy)).1 hxy⟩

/-- **Bindings are free**: no binding is reserved. -/
theorem isReserved_binding (name : String) : isReserved (binding name) = false := by
  cases h : isReserved name with
  | false => rwa [binding_of_not_isReserved h]
  | true =>
    rw [binding_of_isReserved h, Bool.eq_false_iff]
    intro hreserved
    exact dollar_notMem_of_isReserved hreserved (by simp)

/-- A name of a program is an identifier of scripts. -/
theorem isIdent_of_isName {name : String} (h : IsName name) : isIdent name.toList = true := by
  have hstart := h.start
  have hword := (isBinding_of_isName h).2
  cases hname : name.toList with
  | nil => exact absurd hname h.ne_nil
  | cons c cs =>
    rw [hname] at hstart hword
    rw [isIdent, Bool.and_eq_true, List.all_eq_true]
    refine ⟨?_, fun d hd => hword d (List.mem_cons_of_mem _ hd)⟩
    have hc : Grammar.isWordStart c = true := hstart
    rw [Grammar.isWordStart] at hc
    rw [isIdentStart, hc, Bool.true_or]

/-- A binding is an identifier of scripts too, with a dollar sign in front or without. -/
theorem isIdent_binding {name : String} (h : IsName name) :
    isIdent (binding name).toList = true := by
  cases hreserved : isReserved name with
  | false => rw [binding_of_not_isReserved hreserved, isIdent_of_isName h]
  | true =>
    have hshape : ("$" ++ name).toList = '$' :: name.toList := by simp
    rw [binding_of_isReserved hreserved, hshape, isIdent, Bool.and_eq_true, List.all_eq_true]
    exact ⟨rfl, (isBinding_of_isName h).2⟩

end Kelp.Script
