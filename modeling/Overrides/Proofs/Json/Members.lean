import Mathlib.Data.List.Nodup
import Overrides.Json.Value

/-!
# `Overrides.Proofs.Json.Members`: the members of an object in order

`Json.ofMembers` puts members into the order of their names. The
result is ordered, has the same members but for those that a later one
of the same name replaces, and is the list itself where that was
ordered already.

* `sortMembers_of_pairwise`: ordered members stay as they are.
* `pairwise_sortMembers`: sorted members are ordered.
* `lookup_sortMembers`: the last member of a name is the one found.
* `mem_names_sortMembers`: no name is lost.
* `lookup_sortMembers_of_mem`: of names that differ, each member is found.
-/

set_option autoImplicit false

namespace Overrides.Json

variable {α : Type}

/-- A member above all others is put at the end. Members that come in the order
of their names are sorted by this one case. -/
theorem insertMember_of_above {name : String} {value : α} {members : List (String × α)}
    (h : ∀ m ∈ members, m.1 < name) :
    insertMember name value members = members ++ [(name, value)] := by
  induction members with
  | nil => rfl
  | cons b members ih =>
    have hb := h b (List.mem_cons_self ..)
    rw [insertMember, if_neg (String.lt_asymm hb), if_neg (String.ne_of_lt hb).symm,
      ih fun c hc => h c (List.mem_cons_of_mem _ hc)]
    rfl

/-- Members that stand in the order of their names stay there. The values may be
of any type: values that are still to be written, or the texts of those that
are. -/
theorem sortMembers_of_pairwise {members : List (String × α)}
    (h : members.Pairwise fun a b => a.1 < b.1) : sortMembers members = members := by
  -- What is done stays in front, since each new member is above all of it.
  have hfold : ∀ (rest done : List (String × α)), (done ++ rest).Pairwise (fun a b => a.1 < b.1) →
      rest.foldl (fun sorted m => insertMember m.1 m.2 sorted) done = done ++ rest := by
    intro rest
    induction rest with
    | nil => exact fun done _ => (List.append_nil done).symm
    | cons m rest ih =>
      intro done hdone
      have habove : ∀ b ∈ done, b.1 < m.1 := fun b hb =>
        (List.pairwise_append.mp hdone).2.2 b hb m (List.mem_cons_self ..)
      rw [List.foldl_cons, insertMember_of_above habove, ih _ (by simpa using hdone),
        List.append_assoc]
      rfl
  exact hfold members [] h

/-- After an insertion every member is the new one or was there. A member of the same name
may be gone. -/
theorem mem_insertMember {name : String} {value : α} {members : List (String × α)}
    {m : String × α} (h : m ∈ insertMember name value members) :
    m = (name, value) ∨ m ∈ members := by
  induction members with
  | nil => exact .inl (List.mem_singleton.mp h)
  | cons b members ih =>
    rw [insertMember] at h
    split at h
    · exact List.mem_cons.mp h
    · split at h
      · rcases List.mem_cons.mp h with h | h
        · exact .inl h
        · exact .inr (List.mem_cons_of_mem _ h)
      · rcases List.mem_cons.mp h with h | h
        · exact .inr (h ▸ List.mem_cons_self ..)
        · exact (ih h).imp_right (List.mem_cons_of_mem _)

/-- What every insertion keeps holds of sorted members. Properties of the sorted
list are shown with this, one insertion at a time. -/
theorem sortMembers_invariant {p : List (String × α) → Prop} {members : List (String × α)}
    (hstep : ∀ sorted, ∀ m ∈ members, p sorted → p (insertMember m.1 m.2 sorted)) (hnil : p []) :
    p (sortMembers members) := by
  -- The induction is on what is left to insert, which is part of the members.
  have hfold : ∀ (rest sorted : List (String × α)), (∀ m ∈ rest, m ∈ members) → p sorted →
      p (rest.foldl (fun sorted m => insertMember m.1 m.2 sorted) sorted) := by
    intro rest
    induction rest with
    | nil => exact fun _ _ h => h
    | cons m rest ih =>
      intro sorted hsub h
      exact ih _ (fun b hb => hsub b (List.mem_cons_of_mem _ hb))
        (hstep sorted m (hsub m (List.mem_cons_self ..)) h)
  exact hfold members [] (fun _ h => h) hnil

/-- Sorting adds no members. It may lose some, where names are repeated. -/
theorem mem_of_mem_sortMembers {members : List (String × α)} {m : String × α}
    (h : m ∈ sortMembers members) : m ∈ members := by
  have hall : ∀ m ∈ sortMembers members, m ∈ members := by
    refine sortMembers_invariant (p := fun sorted => ∀ m ∈ sorted, m ∈ members) ?_
      fun _ h => nomatch h
    intro sorted b hb hsorted m hm
    rcases mem_insertMember hm with rfl | hm
    · exact hb
    · exact hsorted m hm
  exact hall m h

/-- Sorted members stand in the order of their names, each name once. The order
is strict, so of several members with one name only one is left. -/
theorem pairwise_sortMembers (members : List (String × α)) :
    (sortMembers members).Pairwise fun a b => a.1 < b.1 := by
  refine sortMembers_invariant (p := List.Pairwise fun a b => a.1 < b.1) ?_ List.Pairwise.nil
  intro sorted m _ hsorted
  induction hsorted with
  | nil => exact List.pairwise_singleton ..
  | @cons b sorted hb hsorted ih =>
    rw [insertMember]
    split
    · rename_i hlt
      refine List.pairwise_cons.mpr ⟨fun c hc => ?_, List.pairwise_cons.mpr ⟨hb, hsorted⟩⟩
      rcases List.mem_cons.mp hc with rfl | hc
      · exact hlt
      · exact String.lt_trans hlt (hb c hc)
    · rename_i hle
      split
      · rename_i heq
        -- The new member takes the place of the one of its name.
        refine List.pairwise_cons.mpr ⟨fun c hc => ?_, hsorted⟩
        show m.1 < c.1
        rw [heq]
        exact hb c hc
      · rename_i hne
        refine List.pairwise_cons.mpr ⟨fun c hc => ?_, ih⟩
        rcases mem_insertMember hc with rfl | hc
        · exact String.not_le.mp fun hge => hne (String.le_antisymm hge (String.not_lt.mp hle))
        · exact hb c hc

/-- Looking up in a list of members goes by the first one, then by the others. It is the
library's equation with a decision in the place of a match. -/
theorem lookup_cons_eq_ite (n : String) (m : String × α) (members : List (String × α)) :
    (m :: members).lookup n = if n = m.1 then some m.2 else members.lookup n := by
  rw [List.lookup_cons]
  by_cases h : n = m.1
  · rw [if_pos h, beq_iff_eq.mpr h]
  · rw [if_neg h, beq_eq_false_iff_ne.mpr h]

/-- Under the name of a new member its value is found, and under the other names what was.
It does not take that the members are in order. -/
theorem lookup_insertMember (n name : String) (value : α) (members : List (String × α)) :
    (insertMember name value members).lookup n
      = if n = name then some value else members.lookup n := by
  induction members with
  | nil => exact lookup_cons_eq_ite ..
  | cons b members ih =>
    rw [insertMember]
    split
    · exact lookup_cons_eq_ite ..
    · split
      -- The member that gave way had the same name, so it is found no more.
      · rename_i heq
        have hb : name = b.1 := heq
        rw [lookup_cons_eq_ite, lookup_cons_eq_ite, ← hb]
        split <;> rfl
      · rename_i hne
        rw [lookup_cons_eq_ite, lookup_cons_eq_ite, ih]
        -- The new member went further back, behind one of another name.
        by_cases h : n = name
        · rw [if_neg (show ¬ n = b.1 from h ▸ hne), if_pos h, if_pos h]
        · rw [if_neg h, if_neg h]

/-- The last member of a name is the one that is found. It is the one that was
inserted last and replaced those before it. -/
theorem lookup_sortMembers (n : String) (members : List (String × α)) :
    (sortMembers members).lookup n = members.reverse.lookup n := by
  -- After a run of insertions the latest one of a name is found, and before
  -- all of them what was there at first.
  have hfold : ∀ (rest sorted : List (String × α)),
      (rest.foldl (fun sorted m => insertMember m.1 m.2 sorted) sorted).lookup n
        = (rest.reverse ++ sorted).lookup n := by
    intro rest
    induction rest with
    | nil => intro sorted; rfl
    | cons m rest ih =>
      intro sorted
      rw [List.foldl_cons, ih, List.reverse_cons, List.append_assoc]
      induction rest.reverse with
      | nil =>
        rw [List.nil_append, List.nil_append, lookup_insertMember, List.singleton_append,
          lookup_cons_eq_ite]
      | cons b bs ihb =>
        rw [List.cons_append, List.cons_append, lookup_cons_eq_ite, ihb, lookup_cons_eq_ite]
  have hsorted := hfold members []
  rw [List.append_nil] at hsorted
  exact hsorted

/-- What is found under a name is a member. The converse needs that no name is
repeated, since the first member of a name is the one that is found. -/
theorem mem_of_lookup {n : String} {v : α} {members : List (String × α)}
    (h : members.lookup n = some v) : (n, v) ∈ members := by
  induction members with
  | nil => exact nomatch h
  | cons m members ih =>
    rw [lookup_cons_eq_ite] at h
    split at h
    · rename_i hname
      rw [← Option.some.inj h, hname]
      exact List.mem_cons_self ..
    · exact List.mem_cons_of_mem _ (ih h)

/-- A name is that of some member when a member is found under it. This takes
questions about names to questions about what is found. -/
theorem mem_names_iff {n : String} {members : List (String × α)} :
    n ∈ members.map (·.1) ↔ (members.lookup n).isSome = true := by
  induction members with
  | nil => exact iff_of_false (fun h => nomatch h) (fun h => nomatch h)
  | cons m members ih =>
    rw [List.map_cons, List.mem_cons, ih, lookup_cons_eq_ite]
    split
    · rename_i h
      exact iff_of_true (.inl h) rfl
    · rename_i h
      exact or_iff_right h

/-- Sorting loses no name, and it adds none. -/
theorem mem_names_sortMembers {n : String} {members : List (String × α)} :
    n ∈ (sortMembers members).map (·.1) ↔ n ∈ members.map (·.1) := by
  rw [mem_names_iff, lookup_sortMembers, ← mem_names_iff, List.map_reverse, List.mem_reverse]

/-- Where names differ, every member is found under its name. This is how a
reader that looks members up gets at each of them after the writer has sorted
them. -/
theorem lookup_sortMembers_of_mem {members : List (String × α)}
    (h : (members.map (·.1)).Nodup) {m : String × α} (hm : m ∈ members) :
    (sortMembers members).lookup m.1 = some m.2 := by
  have hname : m.1 ∈ members.reverse.map (·.1) := by
    rw [List.map_reverse, List.mem_reverse]
    exact List.mem_map_of_mem hm
  rw [lookup_sortMembers]
  obtain ⟨v, hv⟩ := Option.isSome_iff_exists.mp (mem_names_iff.mp hname)
  have hmem : (m.1, v) ∈ members := List.mem_reverse.mp (mem_of_lookup hv)
  rw [hv]
  exact congrArg (some ·.2) (List.inj_on_of_nodup_map h hmem hm rfl)

end Overrides.Json
