import Overrides.Json.Record
import Overrides.Proofs.Outcome

/-!
# `Overrides.Proofs.Json.Record`: shapes are read back

What the readers of shapes give for the values that are written for
them: numbers, optional texts and lists of texts, and the objects whose
members are all fields of a record.
-/

set_option autoImplicit false

namespace Overrides

open Overrides.Number

/-- A natural number is read back where it has no more than so many bits. -/
theorem asNatural_ofNat {bits n : Nat} (h : n < twoTo bits) :
    Json.asNatural bits (Json.ofNat n) = .ok n := by
  rw [Json.ofNat, Json.ofInt, Json.asNatural, if_pos ⟨Int.natCast_nonneg n, Int.ofNat_lt.mpr h⟩,
    Int.toNat_natCast]

/-- A number of 32 bits is read back, since it always has its 32 bits. -/
theorem asUInt32_ofNat (n : UInt32) : Json.asUInt32 (Json.ofNat n.toNat) = .ok n := by
  rw [Json.asUInt32, asNatural_ofNat n.toNat_lt, map_ok, UInt32.ofNat_toNat]

/-- A number of 64 bits is read back, the revisions and record numbers among them. -/
theorem asUInt64_ofNat (n : UInt64) : Json.asUInt64 (Json.ofNat n.toNat) = .ok n := by
  rw [Json.asUInt64, asNatural_ofNat n.toNat_lt, map_ok, UInt64.ofNat_toNat]

/-- A text that may be missing is read back, and `null` is no text. -/
theorem asOptional_ofOption (o : Option String) :
    Json.asOptional Json.asText (Json.ofOption .string o) = .ok o := by
  cases o <;> rfl

/-- A list of texts is read back item by item, in its order. -/
theorem asList_ofTexts (texts : List String) :
    Json.asList Json.asText (Json.ofTexts texts) = .ok texts := by
  have hread : ∀ s ∈ texts, (Json.asText ∘ Json.string) s = .ok s := fun _ _ => rfl
  rw [Json.ofTexts, Json.asList, List.mapM_map, mapM_eq_ok hread, List.map_id']

/-- A field that has to be there was there. -/
theorem required_eq_ok {α : Type} {name : String} {o : Option α} {a : α}
    (h : Json.required name o = .ok a) : a ∈ o := by
  cases o with
  | none => exact nomatch h
  | some b => exact congrArg some (Except.ok.inj h)

/-- Where every member is a field, a record is read member by member. Members of
other names, which some records pass over and others refuse, are not among them.
-/
theorem foldRecord_object {σ : Type} {e : Json.Encoding} {shape : Json.RecordShape}
    {put : σ → String → Json → Except Json.Mismatch σ} {members : List (String × Json)}
    (h : ∀ m ∈ members, m.1 ∈ shape.fields) (s : σ) :
    Json.foldRecord e shape put s (.object members)
      = members.foldlM (fun s m => put s m.1 m.2) s := by
  rw [Json.foldRecord]
  induction members generalizing s with
  | nil => rfl
  | cons m members ih =>
    rw [List.foldlM_cons, List.foldlM_cons,
      if_pos (List.contains_iff_mem.mpr (h m (List.mem_cons_self ..)))]
    exact bind_congr fun s' => ih (fun b hb => h b (List.mem_cons_of_mem _ hb)) s'

end Overrides
