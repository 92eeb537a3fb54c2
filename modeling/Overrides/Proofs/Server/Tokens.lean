import Mathlib.Data.List.TakeDrop
import Overrides.Proofs.Outcome
import Overrides.Proofs.Text.Blank
import Overrides.Server.Startup

/-!
# `Overrides.Proofs.Server.Tokens`: who may administer, by the configuration

A configuration says which tokens there are, and a header shows one. Both are
texts with limits of their own: tokens are checked when the configuration is,
and the header is cut up when a request arrives. `Auth.Shows` says what a
header looks like that shows a token, and `Config.UsableToken` which tokens
pass the check. Every token that passes can be shown.

* `Auth.tokenOf_eq_ok_iff`: the token that is read from a header.
* `Config.checkToken_eq_ok_iff`: the tokens that pass.
* `Auth.authorize_eq_ok_iff`: who is granted access, where all tokens pass.
* `access_as_configured`: who is an administrator, by a configuration without
  flaws.
-/

set_option autoImplicit false

namespace Overrides

open Overrides.Text

/-! ### Headers that show a token -/

namespace Text

/-- A text that agrees with another one has a space only where that one has. -/
theorem space_not_mem_of_sameAscii {a b : String} (h : sameAscii a b = true)
    (hb : ' ' ∉ (lowerAscii b).toList) : ' ' ∉ a.toList := by
  intro ha
  rw [sameAscii, beq_iff_eq] at h
  rw [← h, lowerAscii, String.toList_ofList] at hb
  exact hb (List.mem_map.mpr ⟨' ', ha, rfl⟩)

/-- The characters of two texts with a space between them. -/
theorem toList_append_space (scheme rest : String) :
    (scheme ++ " " ++ rest).toList = scheme.toList ++ ' ' :: rest.toList := by
  rw [String.toList_append, String.toList_append, List.append_assoc]
  rfl

/-- The first space ends the scheme. There may be more spaces behind it, which
are part of the token or are trimmed. -/
theorem span_scheme {scheme rest : List Char} (h : ' ' ∉ scheme) :
    (scheme ++ ' ' :: rest).span (· ≠ ' ') = (scheme, ' ' :: rest) := by
  have hall : ∀ c ∈ scheme, decide (c ≠ ' ') = true := by
    intro c hc
    rw [decide_eq_true_eq]
    rintro rfl
    exact h hc
  rw [List.span_eq_takeWhile_dropWhile, List.takeWhile_append_of_pos hall,
    List.dropWhile_append_of_pos hall]
  simp

/-- What is behind the scheme begins with a space. The header is then the
scheme, that space and what is taken for the token. -/
theorem eq_of_span {cs scheme rest : List Char} (h : cs.span (· ≠ ' ') = (scheme, rest))
    (hrest : rest ≠ []) : cs = scheme ++ ' ' :: rest.drop 1 := by
  rw [List.span_eq_takeWhile_dropWhile] at h
  obtain ⟨rfl, hdrop⟩ := Prod.mk.inj h
  cases rest with
  | nil => exact absurd rfl hrest
  | cons c rest =>
    -- What stopped the walk is a space.
    have hc := List.head?_dropWhile_not (fun c : Char => decide (c ≠ ' ')) cs
    rw [hdrop] at hc
    obtain rfl : c = ' ' := by simpa using hc
    rw [List.drop_one, List.tail_cons, ← hdrop, List.takeWhile_append_dropWhile]

end Text

namespace Auth

/-- The header shows the token: it is not too large, and trimmed it is the
scheme, whatever its case, a space, and the token with blanks around it. -/
structure Shows (header token : String) : Prop where
  size : header.utf8ByteSize ≤ maxAuthHeaderBytes
  form : ∃ scheme rest, trim header = scheme ++ " " ++ rest ∧
    sameAscii scheme "bearer" = true ∧ trim rest = token

variable {header token : String}

/-- A header is cut where its form says. There is one first space, so the scheme
and the rest are determined. -/
theorem Shows.span (h : Shows header token) :
    ∃ scheme rest, (trim header).toList.span (· ≠ ' ') = (scheme, rest) ∧
      sameAscii (String.ofList scheme) "bearer" = true ∧
      trim (String.ofList (rest.drop 1)) = token := by
  obtain ⟨scheme, rest, heq, hscheme, htoken⟩ := h.form
  refine ⟨scheme.toList, ' ' :: rest.toList, ?_, ?_, ?_⟩
  · rw [heq, toList_append_space]
    exact span_scheme (space_not_mem_of_sameAscii hscheme (by decide))
  · rw [String.ofList_toList]
    exact hscheme
  · rw [List.drop_one, List.tail_cons, String.ofList_toList]
    exact htoken

/-- A token that is read is shown, is not blank, and is not too long. The header
is cut at its first space, so blanks inside the token stay. -/
theorem tokenOf_eq_ok_iff :
    tokenOf header = .ok token ↔
      Shows header token ∧ token ≠ "" ∧ token.utf8ByteSize ≤ maxTokenBytes := by
  rw [tokenOf, ite_error_eq_ok_iff]
  generalize hspan : (trim header).toList.span (· ≠ ' ') = parts
  obtain ⟨scheme, rest⟩ := parts
  dsimp only
  rw [ite_error_eq_ok_iff, ite_error_eq_ok_iff, Except.ok.injEq, Bool.or_eq_true, not_or,
    Bool.not_eq_true', Bool.not_eq_false, String.isEmpty_iff]
  constructor
  · rintro ⟨hsize, ⟨hscheme, hne⟩, hlong, rfl⟩
    -- Without a space there is nothing behind the scheme, so no token either.
    have hrest : rest ≠ [] := by
      rintro rfl
      exact hne (by decide)
    refine ⟨⟨Nat.le_of_not_lt hsize, String.ofList scheme, String.ofList (rest.drop 1), ?_,
      hscheme, rfl⟩, hne, Nat.le_of_not_lt hlong⟩
    rw [← String.toList_inj, toList_append_space, String.toList_ofList, String.toList_ofList]
    exact eq_of_span hspan hrest
  · rintro ⟨hshows, hne, hlong⟩
    obtain ⟨scheme', rest', hspan', hscheme, htoken⟩ := hshows.span
    obtain ⟨rfl, rfl⟩ := Prod.mk.inj (hspan.symm.trans hspan')
    rw [htoken]
    exact ⟨Nat.not_lt.mpr hshows.size, ⟨hscheme, hne⟩, Nat.not_lt.mpr hlong, rfl⟩

end Auth

/-! ### Configurations without flaws -/

namespace Config

/-- A token that the check lets through. There may be blanks inside, and any
characters that are not blanks at its ends. -/
structure UsableToken (token : String) : Prop where
  trimmed : Trimmed token
  nonempty : token ≠ ""
  size : token.utf8ByteSize ≤ maxTokenBytes

/-- The check of a token accepts those that can be shown in a header. These are
the ones that are trimmed, not empty and not too long. -/
theorem checkToken_eq_ok_iff {token : String} : checkToken token = .ok () ↔ UsableToken token := by
  rw [checkToken, ite_error_eq_ok_iff, ite_error_eq_ok_iff, ite_error_eq_ok_iff,
    String.isEmpty_iff, Nat.not_lt, ne_eq, not_not]
  constructor
  · rintro ⟨hblank, hsize, htrim, -⟩
    exact ⟨(trim_eq_self_iff token).mp htrim, htrim ▸ hblank, hsize⟩
  · intro h
    have htrim := (trim_eq_self_iff token).mpr h.trimmed
    rw [htrim]
    exact ⟨h.nonempty, h.size, rfl, rfl⟩

/-- The tokens are accepted when they are few, each of them is, and there is one
if tokens are what is asked for. -/
theorem checkAuth_eq_ok_iff {a : Auth} :
    checkAuth a = .ok () ↔ a.tokens.length ≤ maxTokens ∧ (∀ token ∈ a.tokens, UsableToken token) ∧
      (a.mode = .bearerToken → a.tokens ≠ []) := by
  have htokens : (∀ token ∈ a.tokens, checkToken token = .ok ()) ↔
      ∀ token ∈ a.tokens, UsableToken token :=
    forall₂_congr fun _ _ => checkToken_eq_ok_iff
  rw [checkAuth, refuse_eq_ok_iff, bind_eq_ok_iff, Nat.not_lt]
  refine and_congr Iff.rfl ?_
  rw [← htokens, ← forM_eq_ok_iff]
  constructor
  · rintro ⟨_, hforM, hlast⟩
    refine ⟨hforM, fun hmode hnone => ?_⟩
    rw [if_pos ⟨hmode, hnone⟩] at hlast
    exact nomatch hlast
  · rintro ⟨hforM, hsome⟩
    exact ⟨(), hforM, if_neg fun ⟨hmode, hnone⟩ => hsome hmode hnone⟩

/-- The log, if it goes to a file, goes to one that can be named. -/
def LogNamed (log : EventLogConfig) : Prop := ∀ path ∈ log.path, checkPath (trim path) = .ok ()

/-- Where the server listens beyond this host, it asks for tokens. An address
that is no loopback is refused under any other policy. -/
theorem checkServer_eq_ok_iff {s : ServerConfig} :
    checkServer s = .ok () ↔ ∃ address, bindAddress s = .ok address ∧ s.maxBodyBytes ≠ 0 ∧
      checkAuth s.auth = .ok () ∧
      (address.ip.isLoopback = true ∨ s.auth.mode = .bearerToken) ∧ LogNamed s.log := by
  -- What is refused is a listener for others together with a mode without tokens.
  have hopen : ∀ local? : Bool, (¬ (!local? && decide (s.auth.mode = .localOnly)) = true) ↔
      local? = true ∨ s.auth.mode = .bearerToken := by
    intro local?
    cases local? <;> cases s.auth.mode <;> decide
  rw [checkServer, bind_eq_ok_iff]
  refine exists_congr fun address => and_congr_right fun _ => ?_
  rw [refuse_eq_ok_iff, bind_eq_ok_iff]
  refine and_congr_right fun _ => ⟨?_, ?_⟩
  · rintro ⟨_, hauth, h⟩
    obtain ⟨hguarded, h⟩ := refuse_eq_ok_iff.mp h
    refine ⟨hauth, (hopen _).mp hguarded, fun path hpath => ?_⟩
    rw [hpath] at h
    exact mapError_eq_ok_iff.mp h
  · rintro ⟨hauth, hguarded, h⟩
    refine ⟨(), hauth, refuse_eq_ok_iff.mpr ⟨(hopen _).mpr hguarded, ?_⟩⟩
    cases hpath : s.log.path with
    | none => rfl
    | some path => exact mapError_eq_ok_iff.mpr (h path hpath)

/-- A configuration is accepted when its four parts are. They are checked in
this order, and the first fault is the one that is told. -/
theorem check_eq_ok_iff {config : Config} :
    config.check = .ok () ↔ checkServer config.server = .ok () ∧ checkStore config.store = .ok () ∧
      checkSnapshot config.snapshot = .ok () ∧ checkPolicy config.policy = .ok () := by
  rw [check, bind_eq_ok_iff]
  constructor
  · rintro ⟨_, hserver, h⟩
    obtain ⟨_, hstore, h⟩ := bind_eq_ok_iff.mp h
    obtain ⟨_, hsnapshot, hpolicy⟩ := bind_eq_ok_iff.mp h
    exact ⟨hserver, hstore, hsnapshot, hpolicy⟩
  · rintro ⟨hserver, hstore, hsnapshot, hpolicy⟩
    refine ⟨(), hserver, bind_eq_ok_iff.mpr ⟨(), hstore, bind_eq_ok_iff.mpr ⟨(), hsnapshot, ?_⟩⟩⟩
    exact hpolicy

/-- The tokens of a configuration that is accepted can be used. -/
theorem usable_of_check {config : Config} (h : config.check = .ok ()) :
    ∀ token ∈ config.server.auth.tokens, UsableToken token := by
  obtain ⟨_, -, -, hauth, -⟩ := checkServer_eq_ok_iff.mp (check_eq_ok_iff.mp h).1
  exact (checkAuth_eq_ok_iff.mp hauth).2.1

end Config

/-! ### Administrators -/

namespace Auth

/-- Who shows this token, under the name that events give it. -/
def bearerOf (token : String) : Identity := .bearer (hexBytes (Sha256.hash (Utf8.encode token)))

/-- Who is an administrator: without tokens, whoever comes from this host; with
tokens, whoever shows one of them, from wherever. -/
inductive Grants (auth : Auth) : Option IpAddress → Option String → Identity → Prop where
  | thisHost {ip : IpAddress} {header : Option String} :
      auth.mode = .localOnly → ip.isLoopback = true → Grants auth (some ip) header .thisHost
  | bearer {peer : Option IpAddress} {text token : String} :
      auth.mode = .bearerToken → Shows text token → token ∈ auth.tokens →
      Grants auth peer (some text) (bearerOf token)

variable {auth : Auth} {peer : Option IpAddress} {header : Option String} {identity : Identity}

/-- Who is an administrator is found out, where all tokens can be shown. Without
that condition a configured token might be one that no header gives. -/
theorem authorize_eq_ok_iff (husable : ∀ token ∈ auth.tokens, Config.UsableToken token) :
    auth.authorize peer header = .ok identity ↔ auth.Grants peer header identity := by
  unfold authorize
  constructor
  · intro h
    split at h
    -- The host itself, where that is the policy.
    · rename_i hmode
      split at h
      · rename_i hlocal
        obtain ⟨ip, rfl, hip⟩ := (Option.any_eq_true ..).mp hlocal
        rw [← Except.ok.inj h]
        exact .thisHost hmode hip
      · exact nomatch h
    · rename_i hmode
      cases header with
      | none => exact nomatch h
      | some text =>
        obtain ⟨token, htoken, h⟩ := bind_eq_ok_iff.mp h
        split at h
        · rename_i hmem
          rw [← Except.ok.inj h]
          exact .bearer hmode (tokenOf_eq_ok_iff.mp htoken).1 (List.contains_iff_mem.mp hmem)
        · exact nomatch h
  · rintro (⟨hmode, hlocal⟩ | ⟨hmode, hshows, hmem⟩)
    · rw [hmode]
      exact if_pos hlocal
    · -- The limits on what is read from a header refuse no token that was accepted.
      rename_i token
      have hfits := husable token hmem
      rw [hmode]
      refine bind_eq_ok_iff.mpr
        ⟨token, tokenOf_eq_ok_iff.mpr ⟨hshows, hfits.nonempty, hfits.size⟩, ?_⟩
      exact if_pos (List.contains_iff_mem.mpr hmem)

/-- Which tokens there are counts, not in which order or how often. The lookup
asks for membership only. -/
theorem authorize_congr {auth' : Auth} (hmode : auth'.mode = auth.mode)
    (hmem : ∀ token, token ∈ auth'.tokens ↔ token ∈ auth.tokens) :
    auth'.authorize peer header = auth.authorize peer header := by
  have hcontains : ∀ token, auth'.tokens.contains token = auth.tokens.contains token := by
    intro token
    rw [Bool.eq_iff_iff, List.contains_iff_mem, List.contains_iff_mem]
    exact hmem token
  unfold authorize
  rw [hmode]
  simp only [hcontains]

/-- A usable token is shown by the scheme, a space and the token. The limit on
headers leaves room for the scheme in front of the longest token. -/
theorem shows_bearer {token : String} (h : Config.UsableToken token) :
    Shows ("Bearer " ++ token) token := by
  have hparts : "Bearer " ++ token = "Bearer" ++ " " ++ token := by
    rw [← String.toList_inj, toList_append_space, String.toList_append]
    rfl
  refine ⟨?_, "Bearer", token, ?_, by decide, (trim_eq_self_iff token).mpr h.trimmed⟩
  · have hsize := h.size
    have hscheme : "Bearer ".utf8ByteSize = 7 := by decide
    rw [String.utf8ByteSize_append, hscheme]
    rw [maxTokenBytes] at hsize
    rw [maxAuthHeaderBytes]
    omega
  -- Neither end of the header is a blank, so trimming cuts nothing off.
  · rw [← hparts, trim_eq_self_iff]
    have htoken : token.toList ≠ [] := by
      rw [ne_eq, String.toList_eq_nil_iff]
      exact h.nonempty
    constructor
    · intro c hc
      obtain rfl : c = 'B' := by
        rw [String.toList_append] at hc
        exact (Option.some.inj hc).symm
      decide
    · -- The last character is one of the token.
      rw [String.toList_append, List.getLast?_append_of_ne_nil _ htoken]
      exact h.trimmed.2

end Auth

/-- **Who administers is what the configuration says.** Take any configuration
that is accepted. The server listens on this host only, or it asks for tokens
and there is one. Whatever the peer and whatever the header, either of which
may be missing, the request is granted exactly when `Auth.Grants` says so, and
who shows a token is known by its hash. The order of the tokens does not count,
nor does it count how often one stands there. The tokens that are accepted are
the trimmed texts of 1 to 256 bytes, with blanks inside or without; each of
those in the configuration is granted behind the scheme and one space. -/
theorem access_as_configured (config : Config) (h : config.check = .ok ()) :
    (∃ address, Config.bindAddress config.server = .ok address ∧
      (address.ip.isLoopback = true ∨
        config.server.auth.mode = .bearerToken ∧ config.server.auth.tokens ≠ [])) ∧
    (∀ (peer : Option IpAddress) (header : Option String) (identity : Identity),
      config.serverOf.auth.authorize peer header = .ok identity ↔
        config.server.auth.Grants peer header identity) ∧
    (∀ tokens : List String, (∀ token, token ∈ tokens ↔ token ∈ config.server.auth.tokens) →
      ∀ (peer : Option IpAddress) (header : Option String),
        Auth.authorize ⟨config.server.auth.mode, tokens⟩ peer header
          = config.serverOf.auth.authorize peer header) ∧
    (∀ token : String, Config.checkToken token = .ok () ↔
      trim token = token ∧ token ≠ "" ∧ token.utf8ByteSize ≤ 256) ∧
    (config.server.auth.mode = .bearerToken → ∀ token ∈ config.server.auth.tokens,
      ∀ peer : Option IpAddress,
        config.serverOf.auth.authorize peer (some ("Bearer " ++ token))
          = .ok (Auth.bearerOf token)) := by
  obtain ⟨address, haddress, -, hauth, hguarded, -⟩ :=
    Config.checkServer_eq_ok_iff.mp (Config.check_eq_ok_iff.mp h).1
  obtain ⟨-, husable, hsome⟩ := Config.checkAuth_eq_ok_iff.mp hauth
  refine ⟨⟨address, haddress, hguarded.imp_right fun hmode => ⟨hmode, hsome hmode⟩⟩,
    fun _ _ _ => Auth.authorize_eq_ok_iff husable,
    fun _ hmem _ _ => Auth.authorize_congr rfl hmem, ?_, ?_⟩
  · intro token
    rw [Config.checkToken_eq_ok_iff, trim_eq_self_iff]
    exact ⟨fun ⟨htrimmed, hne, hsize⟩ => ⟨htrimmed, hne, hsize⟩,
      fun ⟨htrimmed, hne, hsize⟩ => ⟨htrimmed, hne, hsize⟩⟩
  · intro hmode token hmem peer
    exact (Auth.authorize_eq_ok_iff husable).mpr
      (.bearer hmode (Auth.shows_bearer (husable token hmem)) hmem)

/-- A token as long as one may be: 64 characters of four bytes. -/
def longestToken : String := String.ofList (List.replicate 64 '😀')

/-- A token of the greatest length can be shown. It has 256 bytes in 64
characters. -/
theorem usable_longestToken : Config.UsableToken longestToken := by
  have hlist : longestToken.toList = List.replicate 64 '😀' := String.toList_ofList
  have hblank : ∀ c ∈ longestToken.toList, isBlank c = false := by
    intro c hc
    have hmem : c ∈ List.replicate 64 '😀' := hlist ▸ hc
    rw [List.eq_of_mem_replicate hmem]
    decide
  refine ⟨⟨fun c hc => ?_, fun c hc => ?_⟩, by decide +kernel, by decide +kernel⟩
  · exact hblank c (List.mem_of_mem_head? hc)
  · exact hblank c (List.mem_of_mem_getLast? hc)

/-- A server for every host, with a token of two words and a longest one. -/
def publicConfig : Config :=
  { Config.default with server :=
    ⟨"0.0.0.0:8787", 65536, ⟨.bearerToken, ["open sesame", longestToken]⟩, Config.defaultLog⟩ }

/-- Both tokens of the configuration can be shown. -/
theorem usable_publicConfig :
    ∀ token ∈ publicConfig.server.auth.tokens, Config.UsableToken token := by
  have htwo : Config.UsableToken "open sesame" :=
    Config.checkToken_eq_ok_iff.mp (by decide)
  exact List.forall_mem_cons.mpr ⟨htwo, List.forall_mem_singleton.mpr usable_longestToken⟩

/-- Both tokens are granted from everywhere, and nothing is without a header.
One token has a space in it, and the other is as long as a header can carry. -/
theorem publicConfig_access :
    publicConfig.check = .ok () ∧
    (∀ token ∈ publicConfig.server.auth.tokens, ∀ peer : Option IpAddress,
      publicConfig.serverOf.auth.authorize peer (some ("Bearer " ++ token))
        = .ok (Auth.bearerOf token)) ∧
    (∀ (peer : Option IpAddress) (identity : Identity),
      publicConfig.serverOf.auth.authorize peer none ≠ .ok identity) := by
  have hauth : Config.checkAuth publicConfig.server.auth = .ok () :=
    Config.checkAuth_eq_ok_iff.mpr ⟨by decide, usable_publicConfig, fun _ => List.cons_ne_nil _ _⟩
  have hserver : Config.checkServer publicConfig.server = .ok () :=
    Config.checkServer_eq_ok_iff.mpr ⟨⟨.v4 0 0 0 0, 8787, 0⟩, by decide +kernel, by decide, hauth,
      .inr rfl, fun _ hpath => nomatch hpath⟩
  have hcheck : publicConfig.check = .ok () :=
    Config.check_eq_ok_iff.mpr ⟨hserver, rfl, rfl, by decide +kernel⟩
  obtain ⟨-, hgrants, -, -, hshown⟩ := access_as_configured publicConfig hcheck
  refine ⟨hcheck, hshown rfl, fun peer identity h => ?_⟩
  cases (hgrants peer none identity).mp h with
  | thisHost hmode _ => exact nomatch hmode

end Overrides
