import Mathlib.Data.List.Basic
import Mathlib.Data.List.DropRight

/-!
# The host of a URL

How a URL parser of the web finds the host: controls and spaces at both ends and tabs and newlines
anywhere are dropped, the scheme ends at the first colon, and the authority runs to the next slash,
question mark or number sign, in the schemes of the web also to the next backslash.  In the
authority, what stands in front of the last `@` are credentials, and what stands behind the colon
of the host is a port.

What is done with the host itself (percent-decoding, internationalized names, addresses) is a
`HostParser`.  `hostOf_of_plain` says that all this has no effect on a plain URL: its host is the
name that stands behind the scheme.
-/

namespace Url

/-! ## The parser -/

def isControlOrSpace (c : Char) : Bool := c.toNat ≤ 32

def isTabOrNewline (c : Char) : Bool := c = '\t' || c = '\n' || c = '\r'

/-- The input as the parser reads it. -/
def cleaned (url : List Char) : List Char :=
  ((url.dropWhile isControlOrSpace).rdropWhile isControlOrSpace).filter fun c => !isTabOrNewline c

def isSchemeChar (c : Char) : Bool := c.isAlphanum || c = '+' || c = '-' || c = '.'

/-- The scheme, and what is behind its colon. -/
def splitScheme : List Char → Option (List Char × List Char)
  | [] => none
  | c :: s =>
    if c.isAlpha then
      match (c :: s).dropWhile isSchemeChar with
      | ':' :: rest => some (((c :: s).takeWhile isSchemeChar).map Char.toLower, rest)
      | _ => none
    else none

/-- The schemes of the web, for which a backslash is as good as a slash. -/
def isSpecial (scheme : List Char) : Bool :=
  ["http", "https", "ws", "wss", "ftp"].any fun special => special.toList = scheme

def isFile (scheme : List Char) : Bool := "file".toList = scheme

def isSlash (c : Char) : Bool := c = '/' || c = '\\'

/-- The character ends an authority. -/
def endsAuthority (special : Bool) (c : Char) : Bool :=
  c = '/' || c = '?' || c = '#' || (special && c = '\\')

/-- The authority behind the scheme, if there is one. -/
def authority (scheme rest : List Char) : Option (List Char) :=
  if isSpecial scheme then
    some ((rest.dropWhile isSlash).takeWhile fun c => !endsAuthority true c)
  else
    match rest with
    | '/' :: '/' :: rest => some (rest.takeWhile fun c => !endsAuthority false c)
    | _ => none

/-- What is behind the last `@`. -/
def withoutCredentials (authority : List Char) : List Char := authority.rtakeWhile (· ≠ '@')

/-- The host and the text of the port; a host in brackets may contain colons. -/
def splitPort : List Char → List Char × List Char
  | '[' :: s =>
    let inside := s.takeWhile (· ≠ ']')
    match s.dropWhile (· ≠ ']') with
    | [] => ('[' :: inside, [])
    | bracket :: rest => ('[' :: inside ++ [bracket], rest)
  | s => (s.takeWhile (· ≠ ':'), s.dropWhile (· ≠ ':'))

/-- Nothing, or a colon and a number of 16 bits. -/
def isPort : List Char → Bool
  | [] => true
  | ':' :: digits =>
    digits.all Char.isDigit && decide (Nat.ofDigitChars 10 digits 0 ≤ 65535)
  | _ => false

/-! ## Hosts -/

/-- A character of a plain name. -/
def isNameChar (c : Char) : Bool := c.isAlphanum || c = '-' || c = '_' || c = '.'

/-- The last part of a name, when one dot at its end is left out. -/
def lastLabel (name : List Char) : List Char :=
  let name := if name.getLast? = some '.' then name.dropLast else name
  name.rtakeWhile (· ≠ '.')

def isHexDigit (c : Char) : Bool := c.isDigit || 'a' ≤ c.toLower && c.toLower ≤ 'f'

/-- A name that is read as an address. -/
def endsInNumber (name : List Char) : Bool :=
  match lastLabel name with
  | [] => false
  | '0' :: 'x' :: digits | '0' :: 'X' :: digits => digits.all isHexDigit
  | label => label.all Char.isDigit

/-- An address in the form in which it is written. -/
def IsAddress (name : List Char) : Prop :=
  ∃ a b c d : Nat, a ≤ 255 ∧ b ≤ 255 ∧ c ≤ 255 ∧ d ≤ 255 ∧
    name = ['.'].intercalate ([a, b, c, d].map (Nat.toDigits 10))

/-- A name of letters, digits, hyphens, underscores and dots that is not read as an address, or is
one. -/
structure PlainName (name : List Char) : Prop where
  ne_nil : name ≠ []
  chars : ∀ c ∈ name, isNameChar c = true
  address : endsInNumber name = false ∨ IsAddress name

/-- The parser of hosts.  It is only known to keep plain names, except for their case, where it
accepts them. -/
structure HostParser where
  parse (special : Bool) : List Char → Option (List Char)
  parse_plain : ∀ special name host, PlainName name → parse special name = some host →
    host.map Char.toLower = name.map Char.toLower

/-- The host of a file is everything up to the path; `localhost` counts as none. -/
def fileHost (parser : HostParser) : List Char → Option (List Char)
  | c :: d :: rest =>
    if isSlash c && isSlash d then
      let text := rest.takeWhile fun c => !endsAuthority true c
      if text = [] then some []
      else if text.contains ':' then none
      else (parser.parse true text).map fun host => if host = "localhost".toList then [] else host
    else some []
  | _ => some []

/-- The host of a URL that has one. -/
def hostOf (parser : HostParser) (url : List Char) : Option (List Char) :=
  match splitScheme (cleaned url) with
  | none => none
  | some (scheme, rest) =>
    if isFile scheme then fileHost parser rest
    else
      match authority scheme rest with
      | none => none
      | some authority =>
        let (text, port) := splitPort (withoutCredentials authority)
        if !isPort port || text = [] then none else parser.parse (isSpecial scheme) text

/-! ## Plain URLs -/

/-- A URL of a scheme other than that of files, with a plain name and no more than a port behind it
in front of the path. -/
structure IsPlain (url scheme name port rest : List Char) : Prop where
  eq : url = scheme ++ ("://".toList ++ (name ++ (port ++ rest)))
  scheme_head : ∃ c s, scheme = c :: s ∧ c.isAlpha = true
  scheme_chars : ∀ c ∈ scheme, isSchemeChar c = true
  not_file : isFile (scheme.map Char.toLower) = false
  name_plain : PlainName name
  port_digits : port = [] ∨ ∃ digits, port = ':' :: digits ∧ ∀ c ∈ digits, c.isDigit = true
  rest_path : rest = [] ∨ ∃ path, rest = '/' :: path

/-! ### Characters -/

lemma ne_of_isNameChar {c d : Char} (hc : isNameChar c = true) (hd : isNameChar d = false) :
    c ≠ d := by
  rintro rfl
  rw [hd] at hc
  cases hc

/-- No character that passes the test is a control or a space. -/
lemma isControlOrSpace_of_test {test : Char → Bool}
    (htest : ∀ n < 33, test (Char.ofNat n) = false) {c : Char} (h : test c = true) :
    isControlOrSpace c = false := by
  by_contra hcontrol
  have hle : c.toNat ≤ 32 := by simpa [isControlOrSpace] using hcontrol
  have hnot := htest c.toNat (by omega)
  rw [Char.ofNat_toNat, h] at hnot
  cases hnot

lemma isControlOrSpace_of_isSchemeChar {c : Char} (h : isSchemeChar c = true) :
    isControlOrSpace c = false := isControlOrSpace_of_test (by decide) h

lemma isControlOrSpace_of_isNameChar {c : Char} (h : isNameChar c = true) :
    isControlOrSpace c = false := isControlOrSpace_of_test (by decide) h

lemma not_isTabOrNewline {c : Char} (h : isControlOrSpace c = false) :
    isTabOrNewline c = false := by
  by_contra htab
  simp only [isTabOrNewline, Bool.or_eq_false_iff, decide_eq_false_iff_not, not_and_or,
    not_not] at htab
  rcases htab with (rfl | rfl) | rfl
  all_goals exact absurd h (by decide)

lemma endsAuthority_of_isNameChar {special : Bool} {c : Char} (h : isNameChar c = true) :
    endsAuthority special c = false := by
  have hslash := ne_of_isNameChar h (d := '/') (by decide)
  have hquery := ne_of_isNameChar h (d := '?') (by decide)
  have hsign := ne_of_isNameChar h (d := '#') (by decide)
  have hbackslash := ne_of_isNameChar h (d := '\\') (by decide)
  simp [endsAuthority, hslash, hquery, hsign, hbackslash]

lemma isSlash_of_isNameChar {c : Char} (h : isNameChar c = true) : isSlash c = false := by
  have hslash := ne_of_isNameChar h (d := '/') (by decide)
  have hbackslash := ne_of_isNameChar h (d := '\\') (by decide)
  simp [isSlash, hslash, hbackslash]

/-! ### The parts of the parser -/

lemma cleaned_append {front : List Char} (hne : front ≠ []) (tail : List Char)
    (hfront : ∀ c ∈ front, isControlOrSpace c = false) :
    cleaned (front ++ tail) =
      front ++ (tail.rdropWhile isControlOrSpace).filter fun c => !isTabOrNewline c := by
  obtain ⟨c, front', rfl⟩ := List.exists_cons_of_ne_nil hne
  have hstart : ((c :: front') ++ tail).dropWhile isControlOrSpace = (c :: front') ++ tail := by
    rw [List.cons_append, List.dropWhile_cons_of_neg]
    simp [hfront c List.mem_cons_self]
  have hself : ((c :: front').reverse).dropWhile isControlOrSpace = (c :: front').reverse := by
    refine List.dropWhile_eq_self_iff.mpr fun hlt => ?_
    have hlast := hfront _ (List.mem_reverse.mp (List.getElem_mem hlt))
    simpa using hlast
  have hend : ((c :: front') ++ tail).rdropWhile isControlOrSpace =
      (c :: front') ++ tail.rdropWhile isControlOrSpace := by
    rw [List.rdropWhile, List.reverse_append, List.dropWhile_append, hself]
    split_ifs with hempty
    · have hnil : tail.rdropWhile isControlOrSpace = [] := by
        rw [List.rdropWhile, List.isEmpty_iff.mp hempty]
        rfl
      rw [hnil, List.reverse_reverse, List.append_nil]
    · rw [List.reverse_append, List.reverse_reverse]
      rfl
  have hkeep : (c :: front').filter (fun d => !isTabOrNewline d) = c :: front' := by
    refine List.filter_eq_self.mpr fun d hd => ?_
    rw [not_isTabOrNewline (hfront d hd)]
    rfl
  rw [cleaned, hstart, hend, List.filter_append, hkeep]

lemma splitScheme_append {scheme : List Char} (hhead : ∃ c s, scheme = c :: s ∧ c.isAlpha = true)
    (hscheme : ∀ c ∈ scheme, isSchemeChar c = true) (rest : List Char) :
    splitScheme (scheme ++ ':' :: rest) = some (scheme.map Char.toLower, rest) := by
  obtain ⟨c, s, rfl, hc⟩ := hhead
  have hcolon : isSchemeChar ':' = false := by decide
  have htake : ((c :: s) ++ ':' :: rest).takeWhile isSchemeChar = c :: s := by
    rw [List.takeWhile_append_of_pos hscheme, List.takeWhile_cons_of_neg (by simp [hcolon]),
      List.append_nil]
  have hdrop : ((c :: s) ++ ':' :: rest).dropWhile isSchemeChar = ':' :: rest := by
    rw [List.dropWhile_append_of_pos hscheme, List.dropWhile_cons_of_neg (by simp [hcolon])]
  rw [List.cons_append] at htake hdrop ⊢
  rw [splitScheme, if_pos hc, hdrop, htake]
  rfl

lemma authority_append {special : Bool} {text rest : List Char}
    (htext : ∀ c ∈ text, endsAuthority special c = false)
    (hrest : rest = [] ∨ ∃ path, rest = '/' :: path) :
    (text ++ rest).takeWhile (fun c => !endsAuthority special c) = text := by
  rw [List.takeWhile_append_of_pos fun c hc => by rw [htext c hc]; rfl]
  rcases hrest with rfl | ⟨path, rfl⟩
  · exact List.append_nil text
  · have hslash : endsAuthority special '/' = true := by simp [endsAuthority]
    rw [List.takeWhile_cons_of_neg (by simp [hslash]), List.append_nil]

lemma splitPort_append {name port : List Char} (hne : name ≠ [])
    (hname : ∀ c ∈ name, isNameChar c = true) (hport : port = [] ∨ ∃ digits, port = ':' :: digits) :
    splitPort (name ++ port) = (name, port) := by
  obtain ⟨c, s, rfl⟩ := List.exists_cons_of_ne_nil hne
  have hcolon : ∀ d ∈ c :: s, decide (d ≠ ':') = true := fun d hd =>
    decide_eq_true (ne_of_isNameChar (hname d hd) (by decide))
  have hopen : c ≠ '[' := ne_of_isNameChar (hname c List.mem_cons_self) (by decide)
  have htake : ((c :: s) ++ port).takeWhile (fun d => decide (d ≠ ':')) = c :: s := by
    rw [List.takeWhile_append_of_pos hcolon]
    rcases hport with rfl | ⟨digits, rfl⟩ <;> simp
  have hdrop : ((c :: s) ++ port).dropWhile (fun d => decide (d ≠ ':')) = port := by
    rw [List.dropWhile_append_of_pos hcolon]
    rcases hport with rfl | ⟨digits, rfl⟩ <;> simp
  rw [splitPort]
  · rw [htake, hdrop]
  · rintro t heq
    exact hopen (List.cons.inj heq).1

section Plain

variable {url scheme name port rest : List Char} (h : IsPlain url scheme name port rest)

include h

lemma IsPlain.port_eq : port = [] ∨ ∃ digits, port = ':' :: digits :=
  h.port_digits.imp_right fun ⟨digits, heq, _⟩ => ⟨digits, heq⟩

/-- A property of the characters of names, of the digits and of the colon holds throughout the
authority. -/
lemma IsPlain.forall_authority (test : Char → Bool)
    (hname : ∀ c, isNameChar c = true → test c = false) (hcolon : test ':' = false) :
    ∀ c ∈ name ++ port, test c = false := by
  intro c hc
  rcases List.mem_append.mp hc with hc | hc
  · exact hname c (h.name_plain.chars c hc)
  · rcases h.port_digits with rfl | ⟨digits, rfl, hdigits⟩
    · cases hc
    · rcases List.mem_cons.mp hc with rfl | hc
      · exact hcolon
      · refine hname c ?_
        simp [isNameChar, Char.isAlphanum, hdigits c hc]

/-- The parser reads a plain URL with what stands in front of its path unchanged. -/
lemma IsPlain.cleaned_eq : ∃ rest', (rest' = [] ∨ ∃ path, rest' = '/' :: path) ∧
    cleaned url = scheme ++ ':' :: ('/' :: '/' :: (name ++ port ++ rest')) := by
  obtain ⟨c, s, hscheme, -⟩ := h.scheme_head
  have hfront : ∀ d ∈ scheme ++ ("://".toList ++ (name ++ port)), isControlOrSpace d = false := by
    intro d hd
    rcases List.mem_append.mp hd with hd | hd
    · exact isControlOrSpace_of_isSchemeChar (h.scheme_chars d hd)
    · rcases List.mem_append.mp hd with hd | hd
      · have hmarks : ("://".toList.all fun d => !isControlOrSpace d) = true := by decide
        simpa using List.all_eq_true.mp hmarks d hd
      · exact h.forall_authority _ (fun _ => isControlOrSpace_of_isNameChar) (by decide) d hd
  rcases h.rest_path with hrest | ⟨path, hrest⟩
  · refine ⟨[], .inl rfl, ?_⟩
    have hclean := cleaned_append (by simp [hscheme]) [] hfront
    rw [h.eq, hrest]
    simpa using hclean
  · refine ⟨'/' :: (path.rdropWhile isControlOrSpace).filter fun c => !isTabOrNewline c,
      .inr ⟨_, rfl⟩, ?_⟩
    have hfront' : ∀ d ∈ scheme ++ ("://".toList ++ (name ++ port)) ++ ['/'],
        isControlOrSpace d = false := by
      intro d hd
      rcases List.mem_append.mp hd with hd | hd
      · exact hfront d hd
      · rw [List.mem_singleton.mp hd]
        decide
    have hclean := cleaned_append (by simp) path hfront'
    rw [h.eq, hrest]
    simpa using hclean

/-- The host of a plain URL is its name, as the parser of hosts reads it. -/
theorem IsPlain.hostOf_eq (parser : HostParser) :
    hostOf parser url = none ∨
      hostOf parser url = parser.parse (isSpecial (scheme.map Char.toLower)) name := by
  obtain ⟨rest', hrest', hclean⟩ := h.cleaned_eq
  have hsplit := splitScheme_append h.scheme_head h.scheme_chars
    ('/' :: '/' :: (name ++ port ++ rest'))
  have hends : ∀ special, ∀ c ∈ name ++ port, endsAuthority special c = false := fun special =>
    h.forall_authority _ (fun c hc => endsAuthority_of_isNameChar hc) (by cases special <;> decide)
  have hauthority : authority (scheme.map Char.toLower) ('/' :: '/' :: (name ++ port ++ rest')) =
      some (name ++ port) := by
    unfold authority
    split_ifs
    · obtain ⟨c, s, hname⟩ := List.exists_cons_of_ne_nil h.name_plain.ne_nil
      have hc : isSlash c = false :=
        isSlash_of_isNameChar (h.name_plain.chars c (by rw [hname]; exact List.mem_cons_self))
      have hdrop : ('/' :: '/' :: (name ++ port ++ rest')).dropWhile isSlash =
          name ++ port ++ rest' := by
        rw [List.dropWhile_cons_of_pos (by decide), List.dropWhile_cons_of_pos (by decide), hname]
        exact List.dropWhile_cons_of_neg (by simp [hc])
      rw [hdrop, authority_append (hends true) hrest']
    · exact congrArg some (authority_append (hends false) hrest')
  have hcredentials : withoutCredentials (name ++ port) = name ++ port := by
    refine List.rtakeWhile_eq_self_iff.mpr fun c hc => ?_
    have hat := h.forall_authority (fun c => decide (c = '@'))
      (fun c hc => decide_eq_false (ne_of_isNameChar hc (by decide))) (by decide) c hc
    simpa using hat
  have hport := splitPort_append h.name_plain.ne_nil h.name_plain.chars h.port_eq
  unfold hostOf
  rw [hclean, hsplit]
  simp only [h.not_file, Bool.false_eq_true, if_false, hauthority, hcredentials, hport]
  split_ifs
  · exact .inl rfl
  · exact .inr rfl

end Plain

end Url
