import Overrides.Proofs.Precedence.Relevance
import Overrides.Proofs.Store.Listing
import Overrides.Proofs.Store.Reachable
import Overrides.Proofs.Store.Refusals

/-!
# `Overrides.Proofs.Store.Rewriting`: what writes leave, up to revisions

A store is known, up to revisions and bookkeeping, by the contents of its
rules in the order of their last writes. On such lists a write is
`overwrite`: its content comes first, and the content under its key is
gone. Snapshots look at this order within one scope and one priority
only, so writes of different keys commute unless they share both.

* `Backend.HasContents.write`: a write overwrites.
* `Backend.HasContents.sameSnapshots`: contents in the same order in every
  scope and at every priority have the same snapshots.
* `sameRanks_overwrite`: two overwritings in either order.
* `independent_writes_commute`: what this says of stores.
-/

set_option autoImplicit false

namespace Overrides

/-- The contents after one more is written, from the newest to the oldest. The
content that had the key is gone, and the new one stands in front. -/
def overwrite (contents : List Content) (c : Content) : List Content :=
  c :: contents.filter (·.ruleKey ≠ c.ruleKey)

/-! ### Contents -/

section

variable {contents others : List Content} {c d : Content}

/-- Contents have the same ranks as themselves. -/
theorem SameRanks.refl (contents : List Content) : SameRanks contents contents := fun _ _ => rfl

/-- Contents with the same ranks are the same but for their order: a content
occurs as often as it does among those of its rank. -/
theorem SameRanks.perm (h : SameRanks contents others) : contents.Perm others := by
  classical
  refine List.perm_iff_count.mpr fun c => ?_
  have hcount := congrArg (List.count c) (h c.scope c.priority)
  rwa [List.count_filter (by simp), List.count_filter (by simp)] at hcount

/-- Contents of different ranks may stand in either order. No scope and no
priority has both of them. -/
theorem sameRanks_swap (hranks : c.priority ≠ d.priority ∨ c.scope ≠ d.scope)
    (contents : List Content) : SameRanks (c :: d :: contents) (d :: c :: contents) := by
  intro s p
  by_cases hc : c.scope = s ∧ c.priority = p
  · -- The other one has another rank, so it is left out on both sides.
    have hd : ¬ (d.scope = s ∧ d.priority = p) := by
      rintro ⟨hs, hp⟩
      rcases hranks with hne | hne
      · exact hne (hc.2.trans hp.symm)
      · exact hne (hc.1.trans hs.symm)
    simp [hc, hd]
  · simp [List.filter_cons, hc]

/-- Two overwritings with different keys and ranks, in either order, leave the
same ranks. Only the first two contents change places, and they do not compete.
-/
theorem sameRanks_overwrite (hkeys : c.ruleKey ≠ d.ruleKey)
    (hranks : c.priority ≠ d.priority ∨ c.scope ≠ d.scope) (contents : List Content) :
    SameRanks (overwrite (overwrite contents c) d) (overwrite (overwrite contents d) c) := by
  have hcd : overwrite (overwrite contents c) d
      = d :: c :: (contents.filter (·.ruleKey ≠ c.ruleKey)).filter (·.ruleKey ≠ d.ruleKey) := by
    rw [overwrite, overwrite, List.filter_cons_of_pos (by simpa using hkeys)]
  have hdc : overwrite (overwrite contents d) c
      = c :: d :: (contents.filter (·.ruleKey ≠ c.ruleKey)).filter (·.ruleKey ≠ d.ruleKey) := by
    rw [overwrite, overwrite, List.filter_cons_of_pos (by simpa using hkeys.symm),
      List.filter_comm]
  rw [hcd, hdc]
  exact sameRanks_swap (hranks.imp Ne.symm Ne.symm) _

end

/-! ### Stores -/

namespace Backend

/-- The write succeeds and leads to this state. What is answered to it is left
out. -/
def Writes (s : Backend) (request : WriteRequest) (next : Backend) : Prop :=
  ∃ w, RuleStore.write s request = (.ok w, next)

/-- The store holds rules with these contents, the one written last coming
first. -/
def HasContents (s : Backend) (contents : List Content) : Prop :=
  ∃ recent, s.Recalls recent ∧ recent.map Rule.content = contents

/-- Two stores have the same snapshots up to revisions: those of the enabled
rules that they list, whatever the policy, and those that a service serves
or refuses. -/
structure SameSnapshots (s t : Backend) : Prop where
  compiled : ∃ rules others, RuleStore.list s .enabled = .ok rules ∧
    RuleStore.list t .enabled = .ok others ∧
    ∀ (compiler : Compiler) (c : Context) (time : Instant),
      (Snapshot.compile compiler rules c time).unrevised
        = (Snapshot.compile compiler others c time).unrevised
  served : ∀ (service : Service) (c : Context) (time : Instant),
    (service.snapshot s c time).map Snapshot.unrevised
      = (service.snapshot t c time).map Snapshot.unrevised

variable {s t next : Backend} {recent others : List Rule} {contents contents' : List Content}
  {request : WriteRequest}

/-- A reachable store has contents, from the newest to the oldest. -/
theorem Reachable.hasContents (h : s.Reachable) : ∃ contents, s.HasContents contents := by
  obtain ⟨recent, hrecent⟩ := h.recalls
  exact ⟨_, recent, hrecent, rfl⟩

/-- A write that succeeds overwrites. Who writes and when does not matter for
the contents. -/
theorem HasContents.write (h : s.HasContents contents) (hrequest : request.Proper)
    (hwrites : s.Writes request next) : next.HasContents (overwrite contents request.content) := by
  obtain ⟨recent, hrecent, rfl⟩ := h
  obtain ⟨w, hw⟩ := hwrites
  obtain ⟨hcontent, hnext⟩ := hrecent.of_write hrequest hw
  refine ⟨_, hnext, ?_⟩
  rw [List.map_cons, hcontent, overwrite, List.filter_map]
  rfl

/-- A valid write succeeds, or a limit of the store stops it. There is no third
outcome in a reachable state. -/
theorem Reachable.writes_or_limit (h : s.Reachable) (hrequest : request.Proper) :
    (∃ next, s.Writes request next) ∨
      ∃ e : StoreFault, s.AtLimit request e ∧ RuleStore.write s request = (.error e, s) := by
  obtain ⟨recent, hrecent⟩ := h.recalls
  obtain ⟨rules, hholds, -⟩ := hrecent.holds
  obtain ⟨e, hfails⟩ | ⟨w, next, hwrites, -, -⟩ := hholds.write hrequest
  · exact .inr ⟨e, hholds.atLimit_of_write hrequest hfails, hfails⟩
  · exact .inl ⟨next, w, hwrites⟩

/-- In memory a write succeeds while a revision is left. -/
theorem writes_of_room {l : Ledger} (hroom : l.lastRevision.toNat + 1 < UInt64.size)
    (request : WriteRequest) : (memory l).Writes request (memory (l.next request)) := by
  refine ⟨⟨l.nextRule request, .ofBefore (l.get? request.key)⟩, ?_⟩
  show ((l.write request).1, memory (l.write request).2) = _
  rw [Ledger.write_eq hroom]

/-- A valid write leads from a reachable store to one. -/
theorem Reachable.of_writes (h : s.Reachable) (hrequest : request.Proper)
    (hwrites : s.Writes request next) : next.Reachable := by
  obtain ⟨w, hw⟩ := hwrites
  have hnext := h.write hrequest
  rwa [hw] at hnext

/-- The enabled rules that a store lists have the snapshots of all its rules
in the order of their writes. -/
theorem Recalls.compile (h : s.Recalls recent) (compiler : Compiler) (c : Context)
    (time : Instant) :
    Snapshot.compile compiler (Rule.sortByPrecedence (recent.filter Query.enabled.accepts)) c time
      = Snapshot.compile compiler recent c time := by
  have hperm : (Rule.sortByPrecedence (recent.filter Query.enabled.accepts)).Perm
      (recent.filter Query.enabled.accepts) := List.mergeSort_perm ..
  have hranked := h.distinctlyRanked.filter Query.enabled.accepts
  rw [compile_eq_of_ofEligible (ofEligible_perm (hranked.filter _) (eligible_perm hperm _)),
    accepts_enabled]
  exact compile_filter_enabled recent

/-- Stores with the same contents, in the same order in every scope and at
every priority, have the same snapshots. -/
theorem HasContents.sameSnapshots (hs : s.HasContents contents) (ht : t.HasContents contents')
    (h : SameRanks contents contents') : s.SameSnapshots t := by
  obtain ⟨recent, hrecent, rfl⟩ := hs
  obtain ⟨others, hothers, rfl⟩ := ht
  have hcompiled : ∀ (compiler : Compiler) (c : Context) (time : Instant),
      (Snapshot.compile compiler
        (Rule.sortByPrecedence (recent.filter Query.enabled.accepts)) c time).unrevised
      = (Snapshot.compile compiler
        (Rule.sortByPrecedence (others.filter Query.enabled.accepts)) c time).unrevised := by
    intro compiler c time
    rw [hrecent.compile, hothers.compile]
    exact (sameContents_of_descending hrecent.descending hothers.descending h).unrevised_compile
      compiler c time
  refine ⟨⟨_, _, hrecent.list .enabled, hothers.list .enabled, hcompiled⟩, ?_⟩
  intro service c time
  -- A service looks at the number of the rules before it compiles them.
  have hlength : ∀ rs : List Rule,
      (Rule.sortByPrecedence (rs.filter Query.enabled.accepts)).length
        = ((rs.map Rule.content).filter (·.enabled)).length := by
    intro rs
    rw [Rule.sortByPrecedence, List.length_mergeSort, accepts_enabled, List.filter_map,
      List.length_map]
    rfl
  rw [Service.snapshot_of_list (hrecent.list .enabled),
    Service.snapshot_of_list (hothers.list .enabled), hlength, hlength,
    (h.perm.filter _).length_eq]
  split
  · rfl
  · exact congrArg Except.ok (hcompiled service.compiler c time)

end Backend

/-- **Independent writes commute.** In any reachable state of a store of
either kind, write two valid contents with different keys in one order or
in the other, by whom and when does not matter. If they differ in priority
or in scope, the two states have the same snapshots up to revisions,
whether rules were replaced or not. Only limits of the store stop a write,
and in memory both succeed as long as two revisions are left. -/
theorem independent_writes_commute :
    (∀ (s : Backend) (a b a' b' : WriteRequest), s.Reachable → a.Proper → b.Proper →
      a'.content = a.content → b'.content = b.content → a.key ≠ b.key →
      (a.content.priority ≠ b.content.priority ∨ a.content.scope ≠ b.content.scope) →
      ∀ s₁ s₂ t₁ t₂ : Backend, s.Writes a s₁ → s₁.Writes b s₂ → s.Writes b' t₁ → t₁.Writes a' t₂ →
        s₂.SameSnapshots t₂) ∧
    (∀ (s : Backend) (request : WriteRequest), s.Reachable → request.Proper →
      (∃ next : Backend, s.Writes request next) ∨
        ∃ e : StoreFault, s.AtLimit request e ∧ RuleStore.write s request = (.error e, s)) ∧
    ∀ (l : Ledger) (a b : WriteRequest), l.lastRevision.toNat + 2 < UInt64.size →
      ∃ l₁ l₂ : Backend, (Backend.memory l).Writes a l₁ ∧ l₁.Writes b l₂ := by
  refine ⟨?_, fun s request hs hrequest => hs.writes_or_limit hrequest, ?_⟩
  · intro s a b a' b' hs ha hb ha' hb' hkeys hranks s₁ s₂ t₁ t₂ hs₁ hs₂ ht₁ ht₂
    obtain ⟨contents, hcontents⟩ := hs.hasContents
    have hproper_a : a'.Proper := by
      rw [WriteRequest.Proper, ha']
      exact ha
    have hproper_b : b'.Proper := by
      rw [WriteRequest.Proper, hb']
      exact hb
    -- Both orders leave the same contents; only the first two places differ.
    have hab := (hcontents.write ha hs₁).write hb hs₂
    have hba := (hcontents.write hproper_b ht₁).write hproper_a ht₂
    rw [ha', hb'] at hba
    exact hab.sameSnapshots hba (sameRanks_overwrite hkeys hranks contents)
  · intro l a b hroom
    have hfirst : l.lastRevision.toNat + 1 < UInt64.size := by omega
    have hsecond : (l.next a).lastRevision.toNat + 1 < UInt64.size := by
      show (l.lastRevision + 1).toNat + 1 < UInt64.size
      rw [Ledger.toNat_succ hfirst]
      omega
    exact ⟨_, _, Backend.writes_of_room hfirst a, Backend.writes_of_room hsecond b⟩

/-- One of the two rules is there already, and the other one switches safe
mode on. -/
theorem calmFeed_safeModeOn_commute :
    ∃ s₁ s₂ t₁ t₂ : Backend,
      (Backend.memory (Ledger.empty.next calmFeed)).Writes calmFeed s₁ ∧
      s₁.Writes safeModeOn s₂ ∧
      (Backend.memory (Ledger.empty.next calmFeed)).Writes safeModeOn t₁ ∧
      t₁.Writes calmFeed t₂ ∧ s₂.SameSnapshots t₂ := by
  obtain ⟨hcommute, -, hwrites⟩ := independent_writes_commute
  have hroom : (Ledger.empty.next calmFeed).lastRevision.toNat + 2 < UInt64.size := by decide
  have hreachable : (Backend.memory (Ledger.empty.next calmFeed)).Reachable :=
    (Backend.Reachable.fresh .memory).of_writes calmFeed_regular.content
      (Backend.writes_of_room (by decide) calmFeed)
  obtain ⟨s₁, s₂, hs₁, hs₂⟩ := hwrites _ calmFeed safeModeOn hroom
  obtain ⟨t₁, t₂, ht₁, ht₂⟩ := hwrites _ safeModeOn calmFeed hroom
  refine ⟨s₁, s₂, t₁, t₂, hs₁, hs₂, ht₁, ht₂, ?_⟩
  exact hcommute _ calmFeed safeModeOn calmFeed safeModeOn hreachable calmFeed_regular.content
    safeModeOn_regular.content rfl rfl (by decide) (.inl (by decide)) s₁ s₂ t₁ t₂ hs₁ hs₂ ht₁ ht₂

end Overrides
