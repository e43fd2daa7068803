import WorkerHarness.Binary64
import WorkerHarness.IntLiterals

/-!
# Reading JSON

The values that `json.loads` makes of a text, and the errors it raises: those of the grammar, and those of
an integer with too many digits and of containers that are nested too deeply, which are of other kinds. A
text is read token by token, and only as far as the first error.
-/

namespace WorkerHarness.JsonTexts

open CodePoints

inductive JsonFloat
  | nan
  | infinite (negative : Bool)
  | finite (value : ℚ)

inductive Json
  | null
  | bool (b : Bool)
  | int (n : ℤ)
  | float (x : JsonFloat)
  | string (s : Str)
  | array (items : List Json)
  | object (members : List (Str × Json))

/-- An item of a `dict` is set: the place of a key is the one it had first. -/
def setMember (key : Str) (value : Json) : List (Str × Json) → List (Str × Json)
  | [] => [(key, value)]
  | (k, v) :: members => if k = key then (key, value) :: members else (k, v) :: setMember key value members

/-- `members.get(key)`; there is none for a key that is absent. -/
def getMember (key : Str) (members : List (Str × Json)) : Option Json :=
  (members.find? fun m => m.1 = key).map Prod.snd

def quote : CodePoint := codePoint '"'

def backslash : CodePoint := codePoint '\\'

def hexValue (c : CodePoint) : Option ℕ :=
  if 0x30 ≤ c.val ∧ c.val ≤ 0x39 then some (c.val - 0x30)
  else if 0x41 ≤ c.val ∧ c.val ≤ 0x46 then some (c.val - 0x37)
  else if 0x61 ≤ c.val ∧ c.val ≤ 0x66 then some (c.val - 0x57)
  else none

def hexUnit (a b c d : CodePoint) : Option ℕ :=
  match hexValue a, hexValue b, hexValue c, hexValue d with
  | some a, some b, some c, some d => some (((a * 16 + b) * 16 + c) * 16 + d)
  | _, _, _, _ => none

def simpleEscape (c : CodePoint) : Option CodePoint :=
  if c = quote ∨ c = backslash ∨ c = codePoint '/' then some c
  else if c = codePoint 'b' then some (codePoint '\x08')
  else if c = codePoint 'f' then some (codePoint '\x0c')
  else if c = codePoint 'n' then some (codePoint '\n')
  else if c = codePoint 'r' then some (codePoint '\r')
  else if c = codePoint 't' then some (codePoint '\t')
  else none

/-- What a string is made of: code points, and the code units of `\u`. -/
inductive StringUnit
  | plain (c : CodePoint)
  | escaped (unit : ℕ)

def scanUnits : Str → Option (List StringUnit × Str)
  | [] => none
  | c :: rest =>
    if c = quote then some ([], rest)
    else if c = backslash then
      match rest with
      | [] => none
      | e :: rest =>
        if e = codePoint 'u' then
          match rest with
          | h₁ :: h₂ :: h₃ :: h₄ :: rest =>
            match hexUnit h₁ h₂ h₃ h₄ with
            | none => none
            | some unit => (scanUnits rest).map fun p => (.escaped unit :: p.1, p.2)
          | _ => none
        else
          match simpleEscape e with
          | none => none
          | some d => (scanUnits rest).map fun p => (.plain d :: p.1, p.2)
    else if c.val < 0x20 then none
    else (scanUnits rest).map fun p => (.plain c :: p.1, p.2)

def isHighSurrogate (unit : ℕ) : Bool := 0xd800 ≤ unit && unit ≤ 0xdbff

def isLowSurrogate (unit : ℕ) : Bool := 0xdc00 ≤ unit && unit ≤ 0xdfff

/-- Two code units that follow each other may stand for one code point. -/
def joinUnits : List StringUnit → Str
  | [] => []
  | .plain c :: units => c :: joinUnits units
  | .escaped unit :: .escaped unit' :: units =>
    if isHighSurrogate unit && isLowSurrogate unit' then
      Fin.ofNat _ (0x10000 + (unit - 0xd800) * 0x400 + (unit' - 0xdc00)) :: joinUnits units
    else Fin.ofNat _ unit :: joinUnits (.escaped unit' :: units)
  | .escaped unit :: units => Fin.ofNat _ unit :: joinUnits units

inductive Token
  | beginObject
  | endObject
  | beginArray
  | endArray
  | colon
  | comma
  | scalar (value : Json)
  | overlong
  | invalid

def isDigit (c : CodePoint) : Bool := 0x30 ≤ c.val && c.val ≤ 0x39

def natOf (digits : Str) : ℕ := Nat.ofDigits 10 (digits.map fun c => c.val - 0x30).reverse

/-- The digits before the point: no zero leads. -/
def intPart : Str → Option (Str × Str)
  | [] => none
  | c :: rest =>
    if c = codePoint '0' then some ([c], rest)
    else if isDigit c then some (c :: rest.takeWhile isDigit, rest.dropWhile isDigit)
    else none

def fraction : Str → Option (Str × Str)
  | [] => none
  | c :: rest =>
    if c = codePoint '.' ∧ rest.takeWhile isDigit ≠ [] then some
      (rest.takeWhile isDigit, rest.dropWhile isDigit) else none

def sign : Str → Bool × Str
  | [] => (false, [])
  | s :: rest =>
    if s = codePoint '-' then (true, rest) else if s = codePoint '+' then (false, rest) else (false, s :: rest)

def exponent : Str → Option (ℤ × Str)
  | [] => none
  | e :: rest =>
    let (negative, body) := sign rest
    if (e = codePoint 'e' ∨ e = codePoint 'E') ∧ body.takeWhile isDigit ≠ [] then
      let n : ℤ := natOf (body.takeWhile isDigit)
      some (if negative then -n else n, body.dropWhile isDigit)
    else none

/-- `float(text)` of the digits of a number. -/
def jsonFloat (negative : Bool) (digits fractionDigits : Str) (power : ℤ) : JsonFloat :=
  let magnitude : ℚ := natOf (digits ++ fractionDigits) * 10 ^ (power - fractionDigits.length)
  match Binary64.float (if negative then -magnitude else magnitude) with
  | some x => .finite x
  | none => .infinite negative

/-- `int(text)` of the digits of a number. -/
def jsonInt (negative : Bool) (digits : Str) : Token :=
  if IntLiterals.maxDigits < digits.length then .overlong
  else .scalar (.int (if negative then -(natOf digits : ℤ) else natOf digits))

def numberToken (negative : Bool) (text : Str) : Token × Str :=
  match intPart text with
  | none => (.invalid, [])
  | some (digits, rest) =>
    match fraction rest with
    | none =>
      match exponent rest with
      | none => (jsonInt negative digits, rest)
      | some (power, rest) => (.scalar (.float (jsonFloat negative digits [] power)), rest)
    | some (fractionDigits, rest) =>
      match exponent rest with
      | none => (.scalar (.float (jsonFloat negative digits fractionDigits 0)), rest)
      | some (power, rest) => (.scalar (.float (jsonFloat negative digits fractionDigits power)), rest)

def keyword (word : List Char) (value : Json) (rest : Str) : Token × Str :=
  if (word.map codePoint).isPrefixOf rest then (.scalar value, rest.drop word.length) else (.invalid, [])

def stringToken (rest : Str) : Token × Str :=
  match scanUnits rest with
  | none => (.invalid, [])
  | some (units, rest) => (.scalar (.string (joinUnits units)), rest)

/-- The token that starts with `c`, and what follows it. -/
def token (c : CodePoint) (rest : Str) : Token × Str :=
  if c = codePoint '{' then (.beginObject, rest)
  else if c = codePoint '}' then (.endObject, rest)
  else if c = codePoint '[' then (.beginArray, rest)
  else if c = codePoint ']' then (.endArray, rest)
  else if c = codePoint ':' then (.colon, rest)
  else if c = codePoint ',' then (.comma, rest)
  else if c = quote then stringToken rest
  else if c = codePoint 'n' then keyword ['u', 'l', 'l'] .null rest
  else if c = codePoint 't' then keyword ['r', 'u', 'e'] (.bool true) rest
  else if c = codePoint 'f' then keyword ['a', 'l', 's', 'e'] (.bool false) rest
  else if c = codePoint 'N' then keyword ['a', 'N'] (.float .nan) rest
  else if c = codePoint 'I' then keyword ['n', 'f', 'i', 'n', 'i', 't', 'y'] (.float (.infinite false)) rest
  else if c = codePoint '-' then
    if (['I', 'n', 'f', 'i', 'n', 'i', 't', 'y'].map codePoint).isPrefixOf rest then
      keyword ['I', 'n', 'f', 'i', 'n', 'i', 't', 'y'] (.float (.infinite true)) rest
    else numberToken true rest
  else numberToken false (c :: rest)

def isJsonSpace (c : CodePoint) : Bool := c.val = 0x20 || c.val = 0x9 || c.val = 0xa || c.val = 0xd

/-- The tokens of at most so many code points. -/
def tokensWithin : ℕ → Str → List Token
  | 0, _ => []
  | n + 1, text =>
    match text.dropWhile isJsonSpace with
    | [] => []
    | c :: rest => (token c rest).1 :: tokensWithin n (token c rest).2

def tokens (text : Str) : List Token := tokensWithin text.length text

inductive JsonError
  | decodeError
  | overlongInteger
  | tooDeep
deriving DecidableEq

inductive Container
  | array (items : List Json)
  | object (members : List (Str × Json)) (key : Str)

/-- What is read next. -/
inductive Expected
  | value
  | firstItem
  | firstKey
  | key (members : List (Str × Json))
  | colon (members : List (Str × Json)) (key : Str)
  | after (value : Json)

abbrev ReaderState := Expected × List Container

/-- The containers that are not closed, also the one whose key is read. -/
def startValue (limit : ℕ) (containers : List Container) : Token → Except JsonError ReaderState
  | .scalar value => .ok (.after value, containers)
  | .overlong => .error .overlongInteger
  | .beginArray => if containers.length < limit then .ok (.firstItem, containers) else .error .tooDeep
  | .beginObject => if containers.length < limit then .ok (.firstKey, containers) else .error .tooDeep
  | _ => .error .decodeError

def readKey (members : List (Str × Json)) (containers : List Container) : Token → Except JsonError ReaderState
  | .scalar (.string key) => .ok (.colon members key, containers)
  | _ => .error .decodeError

/-- One token, with at most `limit` containers in each other. -/
def readToken (limit : ℕ) : ReaderState → Token → Except JsonError ReaderState
  | (.value, containers), t => startValue limit containers t
  | (.firstItem, containers), .endArray => .ok (.after (.array []), containers)
  | (.firstItem, containers), t => startValue limit (.array [] :: containers) t
  | (.firstKey, containers), .endObject => .ok (.after (.object []), containers)
  | (.firstKey, containers), t => readKey [] containers t
  | (.key members, containers), t => readKey members containers t
  | (.colon members key, containers), .colon => .ok (.value, .object members key :: containers)
  | (.after value, .array items :: containers), .comma => .ok (.value, .array (items ++ [value]) :: containers)
  | (.after value, .array items :: containers), .endArray => .ok (.after (.array (items ++ [value])), containers)
  | (.after value, .object members key :: containers), .comma =>
    .ok (.key (setMember key value members), containers)
  | (.after value, .object members key :: containers), .endObject =>
    .ok (.after (.object (setMember key value members)), containers)
  | _, _ => .error .decodeError

def finish : ReaderState → Except JsonError Json
  | (.after value, []) => .ok value
  | _ => .error .decodeError

/-- `json.loads(text)` -/
def loads (limit : ℕ) (text : Str) : Except JsonError Json :=
  if text.head? = some (codePoint '\ufeff') then .error .decodeError
  else (tokens text).foldlM (readToken limit) (.value, []) >>= finish

variable {c : CodePoint} {text rest digits : Str} {negative : Bool}

theorem append_of_intPart (h : intPart text = some (digits, rest)) : text = digits ++ rest ∧ digits ≠ [] := by
  cases text with
  | nil => cases h
  | cons c text =>
    rw [intPart] at h
    split at h
    · cases h
      exact ⟨rfl, List.cons_ne_nil _ _⟩
    · split at h
      · cases h
        exact ⟨by rw [List.cons_append, List.takeWhile_append_dropWhile], List.cons_ne_nil _ _⟩
      · cases h

theorem suffix_of_fraction (h : fraction text = some (digits, rest)) : rest <:+ text := by
  cases text with
  | nil => cases h
  | cons c text =>
    rw [fraction] at h
    split at h
    · cases h
      exact (List.dropWhile_suffix _).trans (List.suffix_cons _ _)
    · cases h

theorem sign_suffix (text : Str) : (sign text).2 <:+ text := by
  cases text with
  | nil => exact List.suffix_rfl
  | cons s text =>
    rw [sign]
    split
    · exact List.suffix_cons _ _
    · split
      · exact List.suffix_cons _ _
      · exact List.suffix_rfl

theorem suffix_of_exponent {power : ℤ} (h : exponent text = some (power, rest)) : rest <:+ text := by
  cases text with
  | nil => cases h
  | cons e text =>
    rw [exponent] at h
    dsimp only at h
    split at h
    · cases h
      exact (List.dropWhile_suffix _).trans ((sign_suffix text).trans (List.suffix_cons _ _))
    · cases h

theorem overlong_of_jsonInt (h : jsonInt negative digits = .overlong) : IntLiterals.maxDigits < digits.length := by
  unfold jsonInt at h
  split at h
  · assumption
  · cases h

/-- A number has digits; where they are too many, the text is long. -/
theorem numberToken_suffix (negative : Bool) (text : Str) :
    ∃ digits rest, text = digits ++ rest ∧ (numberToken negative text).2 <:+ rest ∧ (text ≠ [] → digits ≠ []) ∧
      ((numberToken negative text).1 = .overlong → IntLiterals.maxDigits < digits.length) := by
  cases hint : intPart text with
  | none =>
    simp only [numberToken, hint]
    exact ⟨text, [], by simp, List.nil_suffix, id, fun h => by cases h⟩
  | some p =>
    obtain ⟨digits, rest⟩ := p
    obtain ⟨htext, hne⟩ := append_of_intPart hint
    refine ⟨digits, rest, htext, ?_⟩
    cases hfraction : fraction rest with
    | none =>
      cases hexponent : exponent rest with
      | none =>
        simp only [numberToken, hint, hfraction, hexponent]
        exact ⟨List.suffix_rfl, fun _ => hne, overlong_of_jsonInt⟩
      | some q =>
        simp only [numberToken, hint, hfraction, hexponent]
        exact ⟨suffix_of_exponent hexponent, fun _ => hne, fun h => by cases h⟩
    | some p =>
      have hpoint := suffix_of_fraction hfraction
      cases hexponent : exponent p.2 with
      | none =>
        simp only [numberToken, hint, hfraction, hexponent]
        exact ⟨hpoint, fun _ => hne, fun h => by cases h⟩
      | some q =>
        simp only [numberToken, hint, hfraction, hexponent]
        exact ⟨(suffix_of_exponent hexponent).trans hpoint, fun _ => hne, fun h => by cases h⟩

theorem keyword_suffix (word : List Char) (value : Json) (rest : Str) : (keyword word value rest).2 <:+ rest := by
  unfold keyword
  split
  · exact List.drop_suffix _ _
  · exact List.nil_suffix

theorem exists_of_map_units {scanned : Option (List StringUnit × Str)} {units : List StringUnit} {unit : StringUnit}
    (h : (scanned.map fun p => (unit :: p.1, p.2)) = some (units, rest)) :
    ∃ units', scanned = some (units', rest) := by
  obtain ⟨p, hp, heq⟩ := Option.map_eq_some_iff.mp h
  cases heq
  exact ⟨p.1, hp⟩

theorem suffix_of_scanUnits {units : List StringUnit} (h : scanUnits text = some (units, rest)) :
    rest <:+ text := by
  fun_induction scanUnits text generalizing units with
  | case1 | case3 | case4 | case6 | case7 | case9 => cases h
  | case2 =>
    cases h
    exact List.suffix_cons _ _
  | case5 h₁ h₂ h₃ h₄ after unit _ _ ih =>
    obtain ⟨units', hunits⟩ := exists_of_map_units h
    exact (ih hunits).trans ⟨[backslash, codePoint 'u', h₁, h₂, h₃, h₄], rfl⟩
  | case8 e after _ d _ _ ih =>
    obtain ⟨units', hunits⟩ := exists_of_map_units h
    exact (ih hunits).trans ⟨[backslash, e], rfl⟩
  | case10 c after _ _ _ ih =>
    obtain ⟨units', hunits⟩ := exists_of_map_units h
    exact (ih hunits).trans (List.suffix_cons _ _)

theorem stringToken_suffix (rest : Str) : (stringToken rest).2 <:+ rest := by
  cases h : scanUnits rest with
  | none =>
    simp only [stringToken, h]
    exact List.nil_suffix
  | some p =>
    simp only [stringToken, h]
    exact suffix_of_scanUnits h

theorem stringToken_ne_overlong (rest : Str) : (stringToken rest).1 ≠ .overlong := by
  cases h : scanUnits rest with
  | none => simp [stringToken, h]
  | some p => simp [stringToken, h]

theorem keyword_ne_overlong (word : List Char) (value : Json) (rest : Str) :
    (keyword word value rest).1 ≠ .overlong := by
  unfold keyword
  split
  · simp
  · simp

structure Leaves (c : CodePoint) (rest : Str) (result : Token × Str) : Prop where
  suffix : result.2 <:+ rest
  overlong : result.1 = .overlong → IntLiterals.maxDigits < (c :: rest).length

theorem Leaves.ite {p : Prop} [Decidable p] {result result' : Token × Str} (h : Leaves c rest result)
    (h' : Leaves c rest result') :
    Leaves c rest (if p then result else result') := by
  split
  · exact h
  · exact h'

theorem Leaves.of_ne {result : Token × Str} (h : result.2 <:+ rest) (hne : result.1 ≠ .overlong) :
    Leaves c rest result :=
  ⟨h, fun heq => absurd heq hne⟩

theorem leaves_numberToken (c : CodePoint) (rest : Str) : Leaves c rest (numberToken false (c :: rest)) := by
  obtain ⟨digits, after, htext, hsuffix, hne, hlong⟩ := numberToken_suffix false (c :: rest)
  have hlength := congrArg List.length htext
  rw [List.length_append] at hlength
  obtain ⟨d, digits, rfl⟩ := List.exists_cons_of_ne_nil (hne (List.cons_ne_nil _ _))
  obtain ⟨-, hrest⟩ := List.cons.inj htext
  constructor
  · exact hsuffix.trans ⟨digits, hrest.symm⟩
  · intro h
    have hlt := hlong h
    omega

theorem leaves_negativeNumber (c : CodePoint) (rest : Str) : Leaves c rest (numberToken true rest) := by
  obtain ⟨digits, after, htext, hsuffix, -, hlong⟩ := numberToken_suffix true rest
  have hlength := congrArg List.length htext
  rw [List.length_append] at hlength
  constructor
  · apply hsuffix.trans
    rw [htext]
    exact List.suffix_append _ _
  · intro h
    have hlt := hlong h
    rw [List.length_cons]
    omega

theorem leaves_token (c : CodePoint) (rest : Str) : Leaves c rest (token c rest) := by
  have hsign : ∀ t : Token, t ≠ .overlong → Leaves c rest (t, rest) := fun t ht => .of_ne List.suffix_rfl ht
  have hkeyword : ∀ word value, Leaves c rest (keyword word value rest) := fun word value =>
    .of_ne (keyword_suffix word value rest) (keyword_ne_overlong word value rest)
  have hstring : Leaves c rest (stringToken rest) := .of_ne (stringToken_suffix rest) (stringToken_ne_overlong rest)
  exact .ite (hsign _ (by simp)) <| .ite (hsign _ (by simp)) <| .ite (hsign _ (by simp)) <|
    .ite (hsign _ (by simp)) <|
    .ite (hsign _ (by simp)) <| .ite (hsign _ (by simp)) <| .ite hstring <| .ite (hkeyword _ _) <|
      .ite (hkeyword _ _) <|
    .ite (hkeyword _ _) <| .ite (hkeyword _ _) <| .ite (hkeyword _ _) <|
    .ite (.ite (hkeyword _ _) (leaves_negativeNumber c rest)) (leaves_numberToken c rest)

theorem length_dropWhile_le (text : Str) : (text.dropWhile isJsonSpace).length ≤ text.length :=
  (List.dropWhile_suffix _).length_le

/-- More steps than code points make no difference. -/
theorem tokensWithin_eq {n : ℕ} (h : text.length ≤ n) : tokensWithin n text = tokens text := by
  induction n using Nat.strong_induction_on generalizing text with
  | _ n ih =>
    cases n with
    | zero =>
      rw [List.length_eq_zero_iff.mp (Nat.le_zero.mp h)]
      rfl
    | succ n =>
      cases hdrop : text.dropWhile isJsonSpace with
      | nil =>
        rw [tokensWithin, hdrop]
        cases text with
        | nil => rfl
        | cons d text => rw [tokens, List.length_cons, tokensWithin, hdrop]
      | cons c rest =>
        have hle := length_dropWhile_le text
        have hrest := (leaves_token c rest).suffix.length_le
        rw [hdrop, List.length_cons] at hle
        obtain ⟨k, hk⟩ : ∃ k, text.length = k + 1 := ⟨text.length - 1, by omega⟩
        rw [tokens, hk, tokensWithin, tokensWithin, hdrop]
        dsimp only
        rw [ih n (by omega) (by omega), ih k (by omega) (by omega)]

theorem tokens_of_space (h : ∀ c ∈ text, isJsonSpace c = true) : tokens text = [] := by
  have hdrop : text.dropWhile isJsonSpace = [] := List.dropWhile_eq_nil_iff.mpr h
  cases text with
  | nil => rfl
  | cons c text => rw [tokens, List.length_cons, tokensWithin, hdrop]

/-- The first token, and those of what it leaves. -/
theorem tokens_of_dropWhile (h : text.dropWhile isJsonSpace = c :: rest) :
    tokens text = (token c rest).1 :: tokens (token c rest).2 := by
  have hle := length_dropWhile_le text
  have hrest := (leaves_token c rest).suffix.length_le
  rw [h, List.length_cons] at hle
  obtain ⟨k, hk⟩ : ∃ k, text.length = k + 1 := ⟨text.length - 1, by omega⟩
  rw [tokens, hk, tokensWithin, h]
  dsimp only
  rw [tokensWithin_eq (by omega)]

theorem length_tokens_le (text : Str) : (tokens text).length ≤ text.length := by
  induction hn : text.length using Nat.strong_induction_on generalizing text with
  | _ n ih =>
    subst hn
    cases hdrop : text.dropWhile isJsonSpace with
    | nil =>
      rw [tokens_of_space (List.dropWhile_eq_nil_iff.mp hdrop)]
      exact Nat.zero_le _
    | cons c rest =>
      have hle := length_dropWhile_le text
      have hrest := (leaves_token c rest).suffix.length_le
      rw [hdrop, List.length_cons] at hle
      have hlater := ih (token c rest).2.length (by omega) (token c rest).2 rfl
      rw [tokens_of_dropWhile hdrop, List.length_cons]
      omega

theorem overlong_notMem_tokens (h : text.length ≤ IntLiterals.maxDigits) : ∀ t ∈ tokens text, t ≠ .overlong := by
  induction hn : text.length using Nat.strong_induction_on generalizing text with
  | _ n ih =>
    subst hn
    cases hdrop : text.dropWhile isJsonSpace with
    | nil =>
      rw [tokens_of_space (List.dropWhile_eq_nil_iff.mp hdrop)]
      exact fun t ht => absurd ht List.not_mem_nil
    | cons c rest =>
      have hle := length_dropWhile_le text
      have hrest := (leaves_token c rest).suffix.length_le
      rw [hdrop, List.length_cons] at hle
      rw [tokens_of_dropWhile hdrop]
      intro t ht
      rcases List.mem_cons.mp ht with rfl | ht
      · intro hoverlong
        have hlt := (leaves_token c rest).overlong hoverlong
        rw [List.length_cons] at hlt
        omega
      · exact ih (token c rest).2.length (by omega) (by omega) rfl t ht

/-- The containers around what is read next. -/
def depth : ReaderState → ℕ
  | (.firstItem, containers) => containers.length + 1
  | (_, containers) => containers.length

/-- One token opens at most one container, and is refused for its kind, for its digits or for the depth. -/
def Progresses (limit : ℕ) (state : ReaderState) (t : Token) : Except JsonError ReaderState → Prop
  | .ok state' => depth state' ≤ depth state + 1
  | .error .decodeError => True
  | .error .overlongInteger => t = .overlong
  | .error .tooDeep => limit ≤ depth state

theorem startValue_progresses {limit : ℕ} {state : ReaderState} {containers : List Container} (t : Token)
    (h : containers.length = depth state) : Progresses limit state t (startValue limit containers t) := by
  cases t with
  | beginObject =>
    rw [startValue]
    split
    · exact h.le.trans (Nat.le_succ _)
    · next hlimit => exact (Nat.not_lt.mp hlimit).trans h.le
  | beginArray =>
    rw [startValue]
    split
    · exact Nat.succ_le_succ h.le
    · next hlimit => exact (Nat.not_lt.mp hlimit).trans h.le
  | scalar value => exact h.le.trans (Nat.le_succ _)
  | overlong => rfl
  | _ => trivial

theorem readKey_progresses {limit : ℕ} {state : ReaderState} {members : List (Str × Json)}
    {containers : List Container}
    (t : Token) (h : containers.length ≤ depth state + 1) :
    Progresses limit state t (readKey members containers t) := by
  unfold readKey
  split
  · exact h
  · trivial

theorem readToken_progresses (limit : ℕ) (state : ReaderState) (t : Token) :
    Progresses limit state t (readToken limit state t) := by
  unfold readToken
  split
  · exact startValue_progresses t rfl
  · simp only [Progresses, depth]
    omega
  · exact startValue_progresses t rfl
  · simp only [Progresses, depth]
    omega
  · exact readKey_progresses t (Nat.le_succ _)
  · exact readKey_progresses t (Nat.le_succ _)
  · exact Nat.le_refl _
  · simp only [Progresses, depth, List.length_cons]
    omega
  · simp only [Progresses, depth, List.length_cons]
    omega
  · simp only [Progresses, depth, List.length_cons]
    omega
  · simp only [Progresses, depth, List.length_cons]
    omega
  · trivial

theorem foldlM_readToken_eq_decodeError {limit : ℕ} {ts : List Token} {state : ReaderState} {e : JsonError}
    (hlimit : depth state + ts.length ≤ limit) (hoverlong : ∀ t ∈ ts, t ≠ .overlong)
    (h : ts.foldlM (readToken limit) state = .error e) : e = .decodeError := by
  induction ts generalizing state with
  | nil => cases h
  | cons t ts ih =>
    have hprogress := readToken_progresses limit state t
    rw [List.length_cons] at hlimit
    rw [List.foldlM_cons] at h
    cases hread : readToken limit state t with
    | error e' =>
      rw [hread] at h hprogress
      cases h
      cases e with
      | decodeError => rfl
      | overlongInteger => exact absurd hprogress (hoverlong t List.mem_cons_self)
      | tooDeep =>
        simp only [Progresses] at hprogress
        omega
    | ok state' =>
      rw [hread] at h hprogress
      simp only [Progresses] at hprogress
      exact ih (by omega) (fun t ht => hoverlong t (List.mem_cons_of_mem _ ht)) h

/-- A short text is read, or it breaks the grammar. -/
theorem loads_eq_decodeError {limit : ℕ} {e : JsonError} (hlimit : text.length ≤ limit)
    (hdigits : text.length ≤ IntLiterals.maxDigits) (h : loads limit text = .error e) : e = .decodeError := by
  unfold loads at h
  split at h
  · cases h
    rfl
  · cases hread : (tokens text).foldlM (readToken limit) (.value, []) with
    | error e' =>
      rw [hread] at h
      cases h
      apply foldlM_readToken_eq_decodeError _ (overlong_notMem_tokens hdigits) hread
      have hle := length_tokens_le text
      simp only [depth, List.length_nil]
      omega
    | ok state =>
      rw [hread] at h
      change finish state = .error e at h
      unfold finish at h
      split at h
      · cases h
      · cases h
        rfl

end WorkerHarness.JsonTexts
