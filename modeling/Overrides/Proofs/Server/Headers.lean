import Overrides.Proofs.Json.Strings
import Overrides.Proofs.Server.Submitting
import Overrides.Proofs.Server.Tokens
import Overrides.Proofs.Text.Utf8

/-!
# `Overrides.Proofs.Server.Headers`: headers beyond ASCII

A header is bytes, and the server reads it as text where every byte is a
visible one of ASCII, a space or a tab. Any other header counts as one that is
missing, also where its bytes are well-formed text. Tokens may be configured
beyond ASCII, and nobody can show those. An actor beyond ASCII is not refused:
the write is recorded under the name that is used where no actor is named.

* `Text.all_isReadable_encode`: the texts that are read from their bytes.
* `Request.header?_of_encode`: what is read of a header that is a text.
* `headers_beyond_ascii_absent`: the tokens that can be shown, and the actors
  that are recorded.
-/

set_option autoImplicit false

namespace Overrides

open Overrides.Text

/-! ### Readable texts -/

namespace Text

/-- Every character is a visible one of ASCII, a space or a tab. -/
def Readable (s : String) : Prop := ∀ c ∈ s.toList, c.toNat = 9 ∨ 0x20 ≤ c.toNat ∧ c.toNat ≤ 0x7e

/-- Every character is one of ASCII. -/
def Ascii (s : String) : Prop := ∀ c ∈ s.toList, c.toNat ≤ 0x7f

/-- No character is a control. -/
def Uncontrolled (s : String) : Prop := ∀ c ∈ s.toList, isControl c = false

-- Characters are finitely many, and the instances must not go through all of them.
instance (s : String) : Decidable (Readable s) := List.decidableBAll _ _

instance (s : String) : Decidable (Ascii s) := List.decidableBAll _ _

instance (s : String) : Decidable (Uncontrolled s) := List.decidableBAll _ _

/-- Without controls, what is in ASCII is readable. -/
theorem readable_iff_ascii {s : String} (h : Uncontrolled s) : Readable s ↔ Ascii s := by
  refine forall₂_congr fun c hc => ?_
  have hcontrol := h c hc
  rw [isControl, Bool.or_eq_false_iff, Bool.and_eq_false_iff] at hcontrol
  simp only [decide_eq_false_iff_not] at hcontrol
  omega

/-- A text is readable when both of its parts are. -/
theorem readable_append {s t : String} : Readable (s ++ t) ↔ Readable s ∧ Readable t := by
  rw [Readable, String.toList_append, List.forall_mem_append]
  rfl

/-- The test on bytes, in numbers: a tab, or visible ASCII with the space. -/
theorem isReadable_iff {b : UInt8} :
    isReadable b = true ↔ b.toNat = 9 ∨ 0x20 ≤ b.toNat ∧ b.toNat ≤ 0x7e := by
  rw [isReadable, Bool.or_eq_true, Bool.and_eq_true, decide_eq_true_eq, decide_eq_true_eq,
    decide_eq_true_eq, UInt8.le_iff_toNat_le, UInt8.le_iff_toNat_le, ← UInt8.toNat_inj, or_comm]
  rfl

/-- The bytes of a character are readable when the character is: beyond ASCII,
none of them is. -/
theorem all_isReadable_utf8EncodeChar (c : Char) :
    (String.utf8EncodeChar c).all isReadable = true ↔
      c.toNat = 9 ∨ 0x20 ≤ c.toNat ∧ c.toNat ≤ 0x7e := by
  by_cases hascii : c.toNat ≤ 0x7f
  · have hbytes : String.utf8EncodeChar c = [UInt8.ofNat c.toNat] := if_pos hascii
    have hb : (UInt8.ofNat c.toNat).toNat = c.toNat := by rw [UInt8.toNat_ofNat']; omega
    rw [hbytes, List.all_cons, List.all_nil, Bool.and_true, isReadable_iff, hb]
  · have hsome : 0 < (String.utf8EncodeChar c).length := by
      rw [String.length_utf8EncodeChar]
      exact c.utf8Size_pos
    obtain ⟨b, hb⟩ := List.exists_mem_of_length_pos hsome
    -- There is a first byte, and it is above all of ASCII.
    have hbyte := Json.le_of_mem_utf8EncodeChar (Nat.lt_of_not_le hascii) b hb
    refine iff_of_false (fun hall => ?_) (by omega)
    have hreadable := isReadable_iff.mp (List.all_eq_true.mp hall b hb)
    omega

/-- The bytes of a text are readable when its characters are. -/
theorem all_isReadable_encode (s : String) : (Utf8.encode s).all isReadable = true ↔ Readable s := by
  rw [Utf8.encode_eq, List.all_flatMap, List.all_eq_true]
  exact forall₂_congr fun c _ => all_isReadable_utf8EncodeChar c

end Text

/-! ### Headers that are texts -/

namespace Request

variable {r : Request} {name text : String}

/-- The bytes of the first header of a name, readable or not. -/
def firstHeader? (r : Request) (name : String) : Option (List UInt8) :=
  (r.headers.find? fun h => sameAscii h.1 name).map Prod.snd

/-- A header that is a text is read when the text is readable, and counts as
missing otherwise. -/
theorem header?_of_encode (h : r.firstHeader? name = some (Utf8.encode text)) :
    r.header? name = if Readable text then some text else none := by
  obtain ⟨⟨found, value⟩, hfind, rfl⟩ := Option.map_eq_some_iff.mp h
  rw [header?, hfind]
  dsimp only
  rw [Utf8.decode?_encode]
  exact if_congr (all_isReadable_encode text) rfl rfl

end Request

/-! ### Tokens and actors -/

namespace Server

variable {server : Server} {r : Request} {token text : String} {i : Identity}

/-- A usable token without controls is shown when it is ASCII. Any other one is
never seen. -/
theorem authorize_of_bearer (server : Server) (hmode : server.auth.mode = .bearerToken)
    (husable : ∀ token ∈ server.auth.tokens, Config.UsableToken token)
    (hmem : token ∈ server.auth.tokens) (hcontrols : Uncontrolled token)
    (hheader : r.firstHeader? "authorization" = some (Utf8.encode ("Bearer " ++ token))) :
    server.auth.authorize (some r.peer) (r.header? "authorization")
      = if Ascii token then .ok (Auth.bearerOf token) else .error .missingHeader := by
  have hscheme : Readable "Bearer " := by decide +kernel
  have hreadable : Readable ("Bearer " ++ token) ↔ Ascii token := by
    rw [readable_append, and_iff_right hscheme, readable_iff_ascii hcontrols]
  rw [Request.header?_of_encode hheader]
  by_cases hascii : Ascii token
  · rw [if_pos hascii, if_pos (hreadable.mpr hascii)]
    exact (Auth.authorize_eq_ok_iff husable).mpr
      (.bearer hmode (Auth.shows_bearer (husable token hmem)) hmem)
  -- The header is there, but it is not seen.
  · rw [if_neg hascii, if_neg (mt hreadable.mp hascii)]
    unfold Auth.authorize
    rw [hmode]

/-- The actor in a header that is read is kept in lower case. In one that is not
read, no actor is named. -/
theorem normalizeActor_of_header (hheader : r.firstHeader? actorHeader = some (Utf8.encode text))
    (hname : trim text ≠ "") (hsize : (trim text).utf8ByteSize ≤ maxActorBytes) :
    normalizeActor (r.header? actorHeader)
      = .ok (if Readable text then some (lower (trim text)) else none) := by
  rw [Request.header?_of_encode hheader]
  by_cases hreadable : Readable text
  · have hnonblank : nonBlank? text = some (trim text) := by
      rw [nonBlank?]
      exact if_neg fun h => hname (String.isEmpty_iff.mp h)
    rw [if_pos hreadable, if_pos hreadable, normalizeActor, Option.bind_some, hnonblank]
    exact if_neg (Nat.not_lt_of_le hsize)
  · rw [if_neg hreadable, if_neg hreadable]
    rfl

/-- The rule that a submission writes is recorded under that actor, or under the
one that its caller has where no actor is named. -/
theorem recorded_of_header {s : Backend} {time : Instant} (hpath : r.path = submitPath)
    (hmethod : r.method = "PUT" ∨ r.method = "POST") (hadmitted : r.Admitted server.auth i)
    (hheader : r.firstHeader? actorHeader = some (Utf8.encode text))
    (hname : trim text ≠ "") (hsize : (trim text).utf8ByteSize ≤ maxActorBytes)
    (hstatus : (server.answer s r time).1.status = 200) :
    ∃ rule, s.Gains rule (server.answer s r time).2.2 ∧
      rule.updatedBy = some (if Readable text then lower (trim text) else i.defaultActor) := by
  obtain ⟨e, note, hanswer, -⟩ | ⟨draft, actor, w, next, hsubmits, hsubmit, hanswer⟩ :=
    answer_submit server s time hpath hmethod
  -- No refusal has the status 200.
  · rw [hanswer] at hstatus
    exact absurd hstatus e.status_ne_ok
  · -- The caller that was let in is the one given, and its header names the actor.
    obtain ⟨hgains, hactor, -⟩ := Backend.gains_of_submit hsubmit
    obtain ⟨i', named, hadmitted', hnamed, rfl⟩ := hsubmits.caller
    obtain rfl := Except.ok.inj (hadmitted'.symm.trans hadmitted)
    rw [normalizeActor_of_header hheader hname hsize] at hnamed
    rw [hanswer]
    refine ⟨w.rule, hgains, ?_⟩
    rw [hactor, ← Except.ok.inj hnamed]
    split <;> rfl

end Server

/-- **A header beyond ASCII counts as one that is missing.** Take any
configuration that is accepted and asks for tokens, one of its tokens that has
no controls, and any request whose first authorization is the scheme, a space
and this token. The request is granted if the token is ASCII. If it is not, the
answer is that there is no authorization, so nobody can use the token. Take any
submission of an administrator whose first actor header is a text that is not
blank and not too long. What it writes is recorded under that text, trimmed and
in lower case, if the text is readable. If it is not, what is written is still
recorded, under the name for those that name no actor. -/
theorem headers_beyond_ascii_absent (config : Config) (h : config.check = .ok ())
    (hmode : config.server.auth.mode = .bearerToken) :
    (∀ token ∈ config.server.auth.tokens, Uncontrolled token →
      ∀ r : Request, r.firstHeader? "authorization" = some (Utf8.encode ("Bearer " ++ token)) →
        (Ascii token → r.Admitted config.serverOf.auth (Auth.bearerOf token)) ∧
        (¬ Ascii token → r.Rejected config.serverOf.auth .missingHeader ∧
          (r.Administers → ∀ (s : Backend) (time : Instant),
            (config.serverOf.answer s r time).1.status = 401))) ∧
    ∀ (s : Backend) (r : Request) (time : Instant) (i : Identity) (text : String),
      r.path = submitPath → (r.method = "PUT" ∨ r.method = "POST") →
      r.Admitted config.serverOf.auth i → r.firstHeader? actorHeader = some (Utf8.encode text) →
      trim text ≠ "" → (trim text).utf8ByteSize ≤ 256 →
      (config.serverOf.answer s r time).1.status = 200 →
      ∃ rule, s.Gains rule (config.serverOf.answer s r time).2.2 ∧
        rule.updatedBy = some (if Readable text then lower (trim text) else i.defaultActor) := by
  have husable := Config.usable_of_check h
  refine ⟨fun token hmem hcontrols r hheader => ?_,
    fun s r time i text hpath hmethod hadmitted hheader hname hsize hstatus =>
      Server.recorded_of_header hpath hmethod hadmitted hheader hname hsize hstatus⟩
  have hanswer :=
    Server.authorize_of_bearer config.serverOf hmode husable hmem hcontrols hheader
  constructor
  · intro hascii
    rw [if_pos hascii] at hanswer
    exact hanswer
  · intro hascii
    rw [if_neg hascii] at hanswer
    refine ⟨hanswer, fun hadministers s time => ?_⟩
    rw [Server.answer_of_rejected hadministers hanswer]

/-- A server with two tokens, the second one with an accent. -/
def accentedConfig : Config :=
  { Config.default with server :=
    { Config.defaultServer with auth := ⟨.bearerToken, ["open sesame", "sésame"]⟩ } }

/-- The configuration with the token beyond ASCII is accepted. -/
theorem check_accentedConfig : accentedConfig.check = .ok () := by decide +kernel

/-- A submission under a token, by an actor whose name has an accent. -/
def zoeSubmission (token : String) : Request where
  method := "PUT"
  path := submitPath
  query := ""
  headers := [("Authorization", Utf8.encode ("Bearer " ++ token)),
    ("X-Divine-Guard-Actor", Utf8.encode "Zoë")]
  body := Utf8.encode "\x7b\"rule_key\":\"calm-feed\",\"scope\":\"ux\",\"enabled\":true\x7d"
  peer := .v4 192 0 2 1

/-- The first token is granted and the second one is not. What is written under
the first one is recorded under the hash of the token, not under the actor. -/
theorem zoeSubmission_misattributed :
    accentedConfig.check = .ok () ∧
    (zoeSubmission "sésame").Rejected accentedConfig.serverOf.auth .missingHeader ∧
    (zoeSubmission "open sesame").Admitted accentedConfig.serverOf.auth
      (Auth.bearerOf "open sesame") ∧
    ∃ rule next, (Backend.memory .empty).Gains rule next ∧
      rule.updatedBy = some (Auth.bearerOf "open sesame").defaultActor := by
  obtain ⟨htokens, hactors⟩ := headers_beyond_ascii_absent accentedConfig check_accentedConfig rfl
  obtain ⟨-, hrejected⟩ := htokens "sésame" (by decide +kernel) (by decide +kernel)
    (zoeSubmission "sésame") rfl
  obtain ⟨hadmitted, -⟩ := htokens "open sesame" (by decide +kernel) (by decide +kernel)
    (zoeSubmission "open sesame") rfl
  have hgranted := hadmitted (by decide +kernel)
  obtain ⟨rule, hgains, hactor⟩ := hactors (.memory .empty) (zoeSubmission "open sesame") ⟨0, 0⟩ _
    "Zoë" rfl (.inl rfl) hgranted rfl (by decide +kernel) (by decide +kernel) (by decide +kernel)
  refine ⟨check_accentedConfig, (hrejected (by decide +kernel)).1, hgranted, rule, _, hgains, ?_⟩
  rw [hactor, if_neg (by decide +kernel)]

/-- A token that the configuration accepts, and that could be sent, locks its
administrator out. -/
theorem accented_token_locked_out :
    accentedConfig.check = .ok () ∧ accentedConfig.server.auth.mode = .bearerToken ∧
    "sésame" ∈ accentedConfig.server.auth.tokens ∧ Uncontrolled "sésame" ∧
    (zoeSubmission "sésame").firstHeader? "authorization"
      = some (Utf8.encode ("Bearer " ++ "sésame")) ∧
    (accentedConfig.serverOf.answer (Backend.memory .empty) (zoeSubmission "sésame")
      ⟨0, 0⟩).1.status = 401 := by
  refine ⟨check_accentedConfig, rfl, ?_, ?_, rfl, ?_⟩
  all_goals decide +kernel

end Overrides
