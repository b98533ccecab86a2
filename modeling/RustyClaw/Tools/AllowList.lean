import RustyClaw.Library.Url
import RustyClaw.Tools.Sandbox

/-!
# The allow-list and the hosts of URLs

`check_network_access` reads the domain of a URL by hand: it is what stands behind the first "://",
up to the next slash and then up to the next colon.  A client reads the host as `Url.hostOf` does.
`allows_of_permitted` says that a restricted policy permits a plain URL only if the client's host is
an allowed domain or below one.

An unrestricted policy permits every URL, whatever domains it lists.  And a URL that is not plain
can name one host to the check and another one to the client, with credentials in front of its host
or a query right behind it.
-/

namespace RustyClaw.Sandbox

open Url

/-- The URL has a plain name and at most a port between its scheme and its path. -/
def PlainUrl (url : List Char) : Prop :=
  ∃ scheme name port rest, IsPlain url scheme name port rest

/-- The name is an allowed domain of the policy, or below one. -/
def Allows (policy : SandboxPolicy) (name : List Char) : Prop :=
  ∃ allowed ∈ policy.allowedDomains, name = allowed ∨ Text.endsWith ('.' :: allowed) name = true

section Plain

variable {url scheme name port rest : List Char} (h : IsPlain url scheme name port rest)

include h

lemma find_separator : Text.find "://".toList url = some scheme.length := by
  rw [Text.find_eq_some_iff (by decide), h.eq]
  constructor
  · have hself : Text.OccursAt "://".toList (scheme ++ "://".toList ++ (name ++ (port ++ rest)))
        scheme.length := Text.occursAt_self_append
    rwa [List.append_assoc] at hself
  · intro i hi hocc
    have hcolon := hocc.getElem? (k := 0) (by decide)
    rw [Nat.add_zero, List.getElem?_append_left hi] at hcolon
    have hscheme := h.scheme_chars ':' (List.mem_of_getElem? hcolon)
    exact absurd hscheme (by decide)

/-- The check reads the name of a plain URL, in lower case. -/
lemma extractDomain_eq (host : Host) : extractDomain host url = host.toLowercase name := by
  have hslash : ∀ c ∈ name ++ port, decide (c ≠ '/') = true := fun c hc => by
    have hne := h.forall_authority (fun c => decide (c = '/'))
      (fun c hc => decide_eq_false (ne_of_isNameChar hc (by decide))) (by decide) c hc
    simpa using hne
  have hcolon : ∀ c ∈ name, decide (c ≠ ':') = true := fun c hc =>
    decide_eq_true (ne_of_isNameChar (h.name_plain.chars c hc) (by decide))
  have hdrop : url.drop (scheme.length + 3) = name ++ port ++ rest := by
    rw [h.eq, ← List.drop_drop, List.drop_left]
    simp
  have hauthority : (name ++ port ++ rest).takeWhile (fun c => decide (c ≠ '/')) =
      name ++ port := by
    rw [List.takeWhile_append_of_pos hslash]
    rcases h.rest_path with rfl | ⟨path, rfl⟩ <;> simp
  have hname : (name ++ port).takeWhile (fun c => decide (c ≠ ':')) = name := by
    rw [List.takeWhile_append_of_pos hcolon]
    rcases h.port_eq with rfl | ⟨digits, rfl⟩ <;> simp
  unfold extractDomain
  rw [find_separator h]
  simp only [hdrop, hauthority, hname]

end Plain

lemma toNat_lt_of_isNameChar {c : Char} (h : isNameChar c = true) : c.toNat < 128 := by
  delta isNameChar Char.isAlphanum Char.isAlpha Char.isUpper Char.isLower Char.isDigit at h
  simp only [Bool.or_eq_true, Bool.and_eq_true, decide_eq_true_eq, ge_iff_le,
    UInt32.le_iff_toNat_le] at h
  rcases h with ((((h | h) | h) | rfl) | rfl) | rfl
  · exact Nat.lt_of_le_of_lt h.2 (by decide)
  · exact Nat.lt_of_le_of_lt h.2 (by decide)
  · exact Nat.lt_of_le_of_lt h.2 (by decide)
  all_goals decide

section Check

variable {host : Host} (hlower : ∀ text : List Char, (∀ c ∈ text, c.toNat < 128) →
  host.toLowercase text = text.map Char.toLower)

include hlower

/-- A restricted policy with a list of domains permits a plain URL only if the host that a client
reads from it is an allowed domain or below one. -/
theorem allows_of_permitted (parser : HostParser) {policy : SandboxPolicy}
    (hlevel : policy.level ≠ .unrestricted) (hdomains : policy.allowedDomains ≠ [])
    {url : List Char} (hplain : PlainUrl url)
    (hpermitted : checkNetworkAccess host url policy = .ok ()) {name : List Char}
    (hname : hostOf parser url = some name) : Allows policy (name.map Char.toLower) := by
  obtain ⟨scheme, text, port, rest, h⟩ := hplain
  have hparsed : parser.parse (isSpecial (scheme.map Char.toLower)) text = some name := by
    rcases h.hostOf_eq parser with hnone | heq
    · rw [hnone] at hname
      cases hname
    · rw [← heq, hname]
  have hsame := parser.parse_plain _ text name h.name_plain hparsed
  have hdomain : extractDomain host url = name.map Char.toLower := by
    rw [extractDomain_eq h, hsame]
    exact hlower text fun c hc => toNat_lt_of_isNameChar (h.name_plain.chars c hc)
  rcases (checkNetworkAccess_eq_ok hlevel).mp hpermitted with hnone | ⟨-, hallowed⟩
  · exact absurd hnone hdomains
  · rwa [hdomain] at hallowed

end Check

/-! ## Hosts that the check does not see -/

lemma toLower_toLower (c : Char) : c.toLower.toLower = c.toLower := by
  have hcases : c.toLower = c ∨ c.toLower.toNat = c.toNat + 32 ∧ c.toNat ≤ 90 ∧ 65 ≤ c.toNat := by
    unfold Char.toLower
    split
    · next hupper =>
      obtain ⟨hlo, hhi⟩ := hupper
      rw [ge_iff_le, UInt32.le_iff_toNat_le] at hlo
      rw [UInt32.le_iff_toNat_le] at hhi
      refine .inr ⟨?_, hhi, hlo⟩
      simp only [Char.toNat, UInt32.toNat_add] at hhi ⊢
      simp at hhi ⊢
      omega
    · exact .inl rfl
  rcases hcases with h | ⟨h, hhi, hlo⟩
  · rw [h, h]
  · -- what was an upper-case letter is none any more
    refine dif_neg fun hupper => ?_
    have hle := UInt32.le_iff_toNat_le.mp hupper.2
    simp only [Char.toNat] at h hhi hlo hle
    simp at h hhi hlo hle
    omega

/-- A parser of hosts that accepts plain characters only. -/
def asciiParser : HostParser where
  parse _ name := if name.all isNameChar then some (name.map Char.toLower) else none
  parse_plain _ name host _ h := by
    have hhost : host = name.map Char.toLower := by
      by_cases hall : name.all isNameChar
      · rw [if_pos hall] at h
        exact (Option.some.inj h).symm
      · rw [if_neg hall] at h
        cases h
    rw [hhost, List.map_map]
    exact List.map_congr_left fun c _ => toLower_toLower c

def forGithub (level : SandboxLevel) : SandboxPolicy :=
  { level := level, allowedDomains := ["github.com".toList] }

/-- A URL below an allowed domain, with a port. -/
theorem allows_of_permitted_api :
    Allows (forGithub .restricted) ("api.github.com".toList.map Char.toLower) := by
  have hplain : IsPlain "https://API.github.com:443/repos?q=@evil.com".toList "https".toList
      "API.github.com".toList ":443".toList "/repos?q=@evil.com".toList :=
    { eq := rfl
      scheme_head := ⟨_, _, rfl, by decide⟩
      scheme_chars := List.all_eq_true.mp (by decide)
      not_file := by decide
      name_plain := ⟨by decide, List.all_eq_true.mp (by decide), .inl (by decide)⟩
      port_digits := .inr ⟨_, rfl, List.all_eq_true.mp (by decide)⟩
      rest_path := .inr ⟨_, rfl⟩ }
  have hlower : ∀ text : List Char, (∀ c ∈ text, c.toNat < 128) →
      emptyHost.toLowercase text = text.map Char.toLower := fun _ _ => rfl
  exact allows_of_permitted hlower asciiParser (by decide) (by decide) ⟨_, _, _, _, hplain⟩
    (by decide) (by decide)

/-- Credentials in front of a host pass for the host. -/
example : checkNetworkAccess emptyHost "http://github.com:x@evil.com/".toList
      (forGithub .restricted) = .ok () ∧
    hostOf asciiParser "http://github.com:x@evil.com/".toList = some "evil.com".toList := by
  decide

/-- An unrestricted policy permits a URL of any host, whatever domains it lists. -/
theorem not_allows_unrestricted :
    checkNetworkAccess emptyHost "https://evil.com/steal".toList
        (forGithub .unrestricted) = .ok () ∧
      hostOf asciiParser "https://evil.com/steal".toList = some "evil.com".toList ∧
      ¬ Allows (forGithub .unrestricted) "evil.com".toList := by
  refine ⟨rfl, by decide, ?_⟩
  rintro ⟨allowed, hmem, heq⟩
  obtain rfl := List.mem_singleton.mp hmem
  revert heq
  decide

end RustyClaw.Sandbox
