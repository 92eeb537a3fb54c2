import Overrides.Proofs.Rule.Text
import Overrides.Proofs.Snapshot.Wire

/-!
# `Overrides.Proofs.Snapshot.Fingerprint`: what the digest of a snapshot tells

The digest of a snapshot is taken of a text that holds the five scope objects
and nothing else. That text can be read back, so it loses nothing of them:
two snapshots have the same text exactly if they have the same scope objects.

* `Json.canonicalBytes_inj`: writable values with one canonical text are one
  value.
* `Settings.toJson_inj`: settings with one wire form are the same.
* `Settings.hashedBytes_inj`: what is hashed determines the scope objects.
* `configHash_identifies_settings`: two snapshots compared.
-/

set_option autoImplicit false

namespace Overrides

open Overrides.Json

/-! ### Canonical texts -/

/-- Writable values with the same canonical text are the same: reading that text
gives either of them. The room for nesting is that of both, so the same reading
is meant. -/
theorem Json.canonicalBytes_inj {room : Nat} {v w : Json} (hv : Writable room v)
    (hw : Writable room w) : canonicalBytes v = canonicalBytes w ↔ v = w := by
  constructor
  · intro hbytes
    -- Nothing follows the text, so the reader ends with it.
    have hend : Ends [] := fun b hb => nomatch hb
    have hreadv := run_value_canonical hv (Nat.le_refl _) [] hend
    have hreadw := run_value_canonical hw (Nat.le_refl _) [] hend
    rw [hbytes] at hreadv
    exact (Prod.mk.inj (Except.ok.inj (hreadv.symm.trans hreadw))).1
  · intro h
    rw [h]

/-! ### Settings on the wire -/

namespace Settings

/-- A setting is written as a flag, a name, a number or `null`, without nesting.
-/
theorem writable_settingToJson {k : Kind} (x : k.Setting) (room : Nat) :
    Writable room (k.settingToJson x) := by
  cases k with
  | flag => exact .bool x
  | quality => exact .string _
  | limit ceiling =>
    cases x with
    | none => exact .null
    | some n =>
      have hsize := UInt32.toNat_lt n
      exact writable_ofNat (by omega) room

/-- The object of a scope takes one level of nesting. Its members are sorted and
plainly named. -/
theorem writable_scopeToJson (t : Settings) (s : Scope) (room : Nat) :
    Writable (room + 1) (t.scopeToJson s) := by
  rw [scopeToJson_eq]
  refine .object (pairwise_sortMembers _) (fun m hm => ?_) fun m hm => ?_
  all_goals obtain ⟨f, -, rfl⟩ := List.mem_map.mp (mem_of_mem_sortMembers hm)
  · exact f.plainName
  · exact writable_settingToJson (t.get f) room

/-- The canonical text loses nothing of settings. -/
theorem writable_toJson (t : Settings) (room : Nat) : Writable (room + 2) t.toJson := by
  have hplain : ∀ s : Scope, PlainName s.name := by
    intro s
    cases s <;> decide
  refine .object (pairwise_sortMembers _) (fun m hm => ?_) fun m hm => ?_
  all_goals obtain ⟨s, -, rfl⟩ := List.mem_map.mp (mem_of_mem_sortMembers hm)
  · exact hplain s
  · exact t.writable_scopeToJson s room

/-- Settings are read back from their wire form. -/
theorem ofJson_toJson (t : Settings) : Settings.ofJson t.toJson = .ok t := by
  refine ofJson_of_members t (fun m hm s hs => ?_) fun s => ?_
  · obtain ⟨s', -, rfl⟩ := List.mem_map.mp (mem_of_mem_sortMembers hm)
    rw [← Scope.name_injective hs]
  · rw [mem_names_sortMembers]
    refine List.mem_map_of_mem (f := Prod.fst) (a := (s.name, t.scopeToJson s)) ?_
    exact List.mem_map_of_mem (by cases s <;> decide)

/-- Different settings have different wire forms, because the wire form is read
back. -/
theorem toJson_inj {t u : Settings} : t.toJson = u.toJson ↔ t = u := by
  constructor
  · intro h
    have hread := u.ofJson_toJson
    rw [← h, ofJson_toJson] at hread
    exact Except.ok.inj hread
  · intro h
    rw [h]

/-- Settings are the same if the objects of all scopes are. Each field is a
member of the object of its scope, and is read back from it. -/
theorem eq_iff_scopeToJson {t u : Settings} :
    t = u ↔ ∀ s, t.scopeToJson s = u.scopeToJson s := by
  constructor
  · intro h s
    rw [h]
  · intro h
    have hmembers : t.members = u.members := List.map_congr_left fun s _ => by rw [h s]
    rw [← toJson_inj, toJson, toJson, hmembers]

/-! ### What is hashed -/

/-- The bytes that the digest of settings is taken of: the canonical text of the
five objects. -/
def hashedBytes (t : Settings) : List UInt8 := canonicalBytes t.toJson

/-- The digest of settings is the hash of their bytes. -/
theorem hashOf_eq (t : Settings) : Snapshot.hashOf t = Digest.ofBytes .sha256 t.hashedBytes := rfl

/-- What is hashed determines the settings. -/
theorem hashedBytes_inj {t u : Settings} : t.hashedBytes = u.hashedBytes ↔ t = u := by
  have ht : Writable 2 t.toJson := t.writable_toJson 0
  have hu : Writable 2 u.toJson := u.writable_toJson 0
  rw [← toJson_inj]
  exact canonicalBytes_inj ht hu

end Settings

/-- **The digest of a snapshot identifies its settings.** Two snapshots are
compiled from whatever rules, for whatever contexts, policies, instants and
times to live. The digest of each is the hash of certain bytes. These bytes
are the same exactly if the objects of all five scopes are the same. So equal
objects have one digest, whatever else differs, and where the objects differ,
other bytes are hashed. -/
theorem configHash_identifies_settings (compiler compiler' : Compiler) (rules rules' : List Rule)
    (context context' : Context) (time time' : Instant) :
    let s := Snapshot.compile compiler rules context time
    let s' := Snapshot.compile compiler' rules' context' time'
    s.configHash = Digest.ofBytes .sha256 s.settings.hashedBytes
      ∧ s'.configHash = Digest.ofBytes .sha256 s'.settings.hashedBytes
      ∧ (s.settings.hashedBytes = s'.settings.hashedBytes
          ↔ ∀ scope, s.settings.scopeToJson scope = s'.settings.scopeToJson scope)
      ∧ ((∀ scope, s.settings.scopeToJson scope = s'.settings.scopeToJson scope)
          → s.configHash = s'.configHash) := by
  intro s s'
  have hhash : s.configHash = Digest.ofBytes .sha256 s.settings.hashedBytes :=
    s.settings.hashOf_eq
  have hhash' : s'.configHash = Digest.ofBytes .sha256 s'.settings.hashedBytes :=
    s'.settings.hashOf_eq
  have hinj : s.settings.hashedBytes = s'.settings.hashedBytes
      ↔ ∀ scope, s.settings.scopeToJson scope = s'.settings.scopeToJson scope :=
    Settings.hashedBytes_inj.trans Settings.eq_iff_scopeToJson
  refine ⟨hhash, hhash', hinj, fun hscopes => ?_⟩
  rw [hhash, hhash', hinj.mpr hscopes]

end Overrides
