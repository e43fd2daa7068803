import WorkerHarness.JsonTexts
import Mathlib.Data.List.Infix
import Mathlib.Tactic.IntervalCases

/-!
# Writing JSON

The texts that `json.dump` with an indentation makes of strings, arrays and objects. They are read back as
what they were written from, if no two code points of a string look like the halves of a third one.
-/

namespace WorkerHarness.JsonWriting

open CodePoints JsonTexts

def hexDigit (d : ℕ) : CodePoint := if d < 10 then Fin.ofNat _ (0x30 + d) else Fin.ofNat _ (0x57 + d)

/-- `\uXXXX` -/
def unitText (unit : ℕ) : Str :=
  [backslash, codePoint 'u', hexDigit (unit / 0x1000 % 0x10), hexDigit (unit / 0x100 % 0x10),
    hexDigit (unit / 0x10 % 0x10),
    hexDigit (unit % 0x10)]

def escape (c : CodePoint) : Str :=
  if c = quote then [backslash, quote]
  else if c = backslash then [backslash, backslash]
  else if c = codePoint '\n' then [backslash, codePoint 'n']
  else if c = codePoint '\r' then [backslash, codePoint 'r']
  else if c = codePoint '\t' then [backslash, codePoint 't']
  else if c = codePoint '\x08' then [backslash, codePoint 'b']
  else if c = codePoint '\x0c' then [backslash, codePoint 'f']
  else if 0x20 ≤ c.val ∧ c.val ≤ 0x7e then [c]
  else if c.val < 0x10000 then unitText c.val
  else unitText (0xd800 + (c.val - 0x10000) / 0x400) ++ unitText (0xdc00 + (c.val - 0x10000) % 0x400)

def stringText (s : Str) : Str := quote :: (s.flatMap escape ++ [quote])

def newline (level : ℕ) : Str := codePoint '\n' :: List.replicate (2 * level) (codePoint ' ')

def bracketed (opening closing : CodePoint) (level : ℕ) (items : List Str) : Str :=
  if items = [] then [opening, closing]
  else opening :: (newline (level + 1) ++ ((codePoint ',' :: newline (level + 1)).intercalate items ++
    (newline level ++ [closing])))

def arrayText (level : ℕ) (items : List Str) : Str := bracketed (codePoint '[') (codePoint ']') level items

def memberText (member : Str × Str) : Str := stringText member.1 ++ (codePoint ':' :: codePoint ' ' :: member.2)

def objectText (level : ℕ) (members : List (Str × Str)) : Str :=
  bracketed (codePoint '{') (codePoint '}') level (members.map memberText)

variable {c : CodePoint} {s rest text : Str} {value : Json} {nesting : ℕ}

theorem hexValue_hexDigit {d : ℕ} (h : d < 16) : hexValue (hexDigit d) = some d := by
  have hall : ∀ d : Fin 16, hexValue (hexDigit d.val) = some d.val := by decide
  exact hall ⟨d, h⟩

def unitsOf (c : CodePoint) : List StringUnit :=
  if c = quote ∨ c = backslash ∨ c = codePoint '\n' ∨ c = codePoint '\r' ∨ c = codePoint '\t' ∨
    c = codePoint '\x08' ∨
      c = codePoint '\x0c' ∨ 0x20 ≤ c.val ∧ c.val ≤ 0x7e then [.plain c]
  else if c.val < 0x10000 then [.escaped c.val]
  else [.escaped (0xd800 + (c.val - 0x10000) / 0x400), .escaped (0xdc00 + (c.val - 0x10000) % 0x400)]

theorem scanUnits_unitText {unit : ℕ} (h : unit < 0x10000) (rest : Str) :
    scanUnits (unitText unit ++ rest) = (scanUnits rest).map fun p => (.escaped unit :: p.1, p.2) := by
  have hunit : hexUnit (hexDigit (unit / 0x1000 % 0x10)) (hexDigit (unit / 0x100 % 0x10))
    (hexDigit (unit / 0x10 % 0x10))
      (hexDigit (unit % 0x10)) = some unit := by
    unfold hexUnit
    rw [hexValue_hexDigit (by omega), hexValue_hexDigit (by omega), hexValue_hexDigit (by omega),
      hexValue_hexDigit (by omega)]
    dsimp only
    rw [Option.some.injEq]
    omega
  have hquote : ¬backslash = quote := by decide
  simp only [unitText, List.cons_append, List.nil_append, scanUnits, if_neg hquote, if_true, hunit]

theorem scanUnits_simple {e d : CodePoint} (he : e ≠ codePoint 'u') (h : simpleEscape e = some d) (rest : Str) :
    scanUnits (backslash :: e :: rest) = (scanUnits rest).map fun p => (.plain d :: p.1, p.2) := by
  have hquote : ¬backslash = quote := by decide
  rw [scanUnits.eq_def]
  simp only [if_neg hquote, if_true, if_neg he, h]

theorem scanUnits_escape (c : CodePoint) (rest : Str) :
    scanUnits (escape c ++ rest) = (scanUnits rest).map fun p => (unitsOf c ++ p.1, p.2) := by
  by_cases hsimple : c = quote ∨ c = backslash ∨ c = codePoint '\n' ∨ c = codePoint '\r' ∨ c = codePoint '\t' ∨
      c = codePoint '\x08' ∨ c = codePoint '\x0c'
  · rcases hsimple with rfl | rfl | rfl | rfl | rfl | rfl | rfl <;> exact scanUnits_simple (by decide) rfl rest
  · simp only [not_or] at hsimple
    obtain ⟨hquote, hbackslash, hn, hr, ht, hb, hf⟩ := hsimple
    rw [escape, if_neg hquote, if_neg hbackslash, if_neg hn, if_neg hr, if_neg ht, if_neg hb, if_neg hf, unitsOf]
    simp only [hquote, hbackslash, hn, hr, ht, hb, hf, false_or]
    by_cases hprintable : 0x20 ≤ c.val ∧ c.val ≤ 0x7e
    · rw [if_pos hprintable, if_pos hprintable, List.singleton_append, scanUnits.eq_def]
      dsimp only
      rw [if_neg hquote, if_neg hbackslash, if_neg (by omega)]
      rfl
    · rw [if_neg hprintable, if_neg hprintable]
      by_cases hbasic : c.val < 0x10000
      · rw [if_pos hbasic, if_pos hbasic, scanUnits_unitText hbasic]
        rfl
      · have hlt := c.isLt
        rw [if_neg hbasic, if_neg hbasic, List.append_assoc, scanUnits_unitText (by omega),
          scanUnits_unitText (by omega),
          Option.map_map]
        rfl

theorem scanUnits_flatMap (s rest : Str) :
    scanUnits (s.flatMap escape ++ quote :: rest) = some (s.flatMap unitsOf, rest) := by
  induction s with
  | nil =>
    rw [List.flatMap_nil, List.nil_append, scanUnits.eq_def]
    exact if_pos rfl
  | cons c s ih =>
    rw [List.flatMap_cons, List.append_assoc, scanUnits_escape, ih]
    rfl

def NoHighSurrogate (s : Str) : Prop := ∀ c ∈ s, isHighSurrogate c.val = false

theorem joinUnits_unitsOf (h : isHighSurrogate c.val = false) (units : List StringUnit) :
    joinUnits (unitsOf c ++ units) = c :: joinUnits units := by
  unfold unitsOf
  split
  · rfl
  · split
    · cases units with
      | nil => simp [joinUnits]
      | cons unit units =>
        cases unit with
        | plain d => simp [joinUnits]
        | escaped unit => simp [joinUnits, h]
    · have hlt := c.isLt
      have hhigh : isHighSurrogate (0xd800 + (c.val - 0x10000) / 0x400) = true := by
        simp only [isHighSurrogate, Bool.and_eq_true, decide_eq_true_eq]
        omega
      have hlow : isLowSurrogate (0xdc00 + (c.val - 0x10000) % 0x400) = true := by
        simp only [isLowSurrogate, Bool.and_eq_true, decide_eq_true_eq]
        omega
      have hc : Fin.ofNat 0x110000 (0x10000 + (0xd800 + (c.val - 0x10000) / 0x400 - 0xd800) * 0x400 +
          (0xdc00 + (c.val - 0x10000) % 0x400 - 0xdc00)) = c := by
        apply Fin.ext
        rw [Fin.val_ofNat]
        omega
      simp only [List.cons_append, List.nil_append, joinUnits, hhigh, hlow, Bool.and_self, if_true, hc]

theorem joinUnits_flatMap (h : NoHighSurrogate s) : joinUnits (s.flatMap unitsOf) = s := by
  induction s with
  | nil => rfl
  | cons c s ih =>
    rw [List.flatMap_cons, joinUnits_unitsOf (h c List.mem_cons_self),
      ih fun d hd => h d (List.mem_cons_of_mem _ hd)]

theorem tokens_space_append {space : Str} (h : ∀ c ∈ space, isJsonSpace c = true) (rest : Str) :
    tokens (space ++ rest) = tokens rest := by
  have hdrop : (space ++ rest).dropWhile isJsonSpace = rest.dropWhile isJsonSpace := List.dropWhile_append_of_pos h
  cases hrest : rest.dropWhile isJsonSpace with
  | nil =>
    rw [hrest] at hdrop
    rw [tokens_of_space (List.dropWhile_eq_nil_iff.mp hdrop), tokens_of_space (List.dropWhile_eq_nil_iff.mp hrest)]
  | cons c after =>
    rw [hrest] at hdrop
    rw [tokens_of_dropWhile hdrop, tokens_of_dropWhile hrest]

theorem tokens_cons (h : isJsonSpace c = false) (rest : Str) :
    tokens (c :: rest) = (token c rest).1 :: tokens (token c rest).2 := by
  apply tokens_of_dropWhile
  rw [List.dropWhile_cons_of_neg (by simp [h])]

theorem tokens_newline (level : ℕ) (rest : Str) : tokens (newline level ++ rest) = tokens rest := by
  apply tokens_space_append
  intro c hc
  rcases List.mem_cons.mp hc with rfl | hc
  · rfl
  · rw [List.eq_of_mem_replicate hc]
    rfl

theorem tokens_stringText (h : NoHighSurrogate s) (rest : Str) :
    tokens (stringText s ++ rest) = .scalar (.string s) :: tokens rest := by
  have hstring : stringToken (s.flatMap escape ++ quote :: rest) = (.scalar (.string s), rest) := by
    rw [stringToken, scanUnits_flatMap]
    dsimp only
    rw [joinUnits_flatMap h]
  have htoken : token quote (s.flatMap escape ++ quote :: rest) = (.scalar (.string s), rest) := hstring
  rw [stringText, List.cons_append, List.append_assoc, List.singleton_append, tokens_cons rfl, htoken]

theorem tokens_comma (rest : Str) : tokens (codePoint ',' :: rest) = .comma :: tokens rest := tokens_cons rfl rest

theorem tokens_colon (rest : Str) : tokens (codePoint ':' :: rest) = .colon :: tokens rest := tokens_cons rfl rest

theorem tokens_beginArray (rest : Str) : tokens (codePoint '[' :: rest) = .beginArray :: tokens rest :=
  tokens_cons rfl rest

theorem tokens_endArray (rest : Str) : tokens (codePoint ']' :: rest) = .endArray :: tokens rest :=
  tokens_cons rfl rest

theorem tokens_beginObject (rest : Str) : tokens (codePoint '{' :: rest) = .beginObject :: tokens rest :=
  tokens_cons rfl rest

theorem tokens_endObject (rest : Str) : tokens (codePoint '}' :: rest) = .endObject :: tokens rest :=
  tokens_cons rfl rest

def Delimits (rest : Str) : Prop := ∀ c ∈ rest.head?, c = codePoint ',' ∨ c = codePoint '\n'

theorem takeWhile_isDigit (hdigits : ∀ c ∈ s, isDigit c = true) (h : Delimits rest) :
    (s ++ rest).takeWhile isDigit = s ∧ (s ++ rest).dropWhile isDigit = rest := by
  have hstop : rest.takeWhile isDigit = [] ∧ rest.dropWhile isDigit = rest := by
    cases rest with
    | nil => exact ⟨rfl, rfl⟩
    | cons c rest => rcases h c rfl with rfl | rfl <;> exact ⟨rfl, rfl⟩
  rw [List.takeWhile_append_of_pos hdigits, List.dropWhile_append_of_pos hdigits, hstop.1, hstop.2, List.append_nil]
  exact ⟨rfl, rfl⟩

theorem fraction_of_delimits (h : Delimits rest) : fraction rest = none := by
  cases rest with
  | nil => rfl
  | cons c rest => rcases h c rfl with rfl | rfl <;> rfl

theorem exponent_of_delimits (h : Delimits rest) : exponent rest = none := by
  cases rest with
  | nil => rfl
  | cons c rest => rcases h c rfl with rfl | rfl <;> rfl

theorem isDigit_of_mem_decimal {n : ℕ} (h : c ∈ IntLiterals.decimal n) : isDigit c = true := by
  obtain ⟨hlow, hhigh⟩ := IntLiterals.mem_decimal h
  simp only [isDigit, Bool.and_eq_true, decide_eq_true_eq]
  omega

theorem natOf_decimal (n : ℕ) : natOf (IntLiterals.decimal n) = n := by
  have hvalues : (IntLiterals.decimal n).map (fun c => c.val - 0x30) = IntLiterals.decimalDigits n := by
    rw [IntLiterals.decimal, List.map_map]
    apply (List.map_congr_left fun d hd => ?_).trans (List.map_id _)
    rw [Function.comp_apply, IntLiterals.digitPoint_val (IntLiterals.lt_of_mem_decimalDigits hd),
      Nat.add_sub_cancel_left]
    rfl
  rw [natOf, hvalues, IntLiterals.ofDigits_decimalDigits]

/-- No zero leads. -/
theorem exists_decimal_cons (n : ℕ) : ∃ d ds, d < 10 ∧ IntLiterals.decimal n = IntLiterals.digitPoint d :: ds ∧
    (d = 0 → ds = []) := by
  by_cases hzero : n = 0
  · exact ⟨0, [], by omega, by simp [IntLiterals.decimal, IntLiterals.decimalDigits, hzero], fun _ => rfl⟩
  · obtain ⟨d, ds, hdigits⟩ := List.exists_cons_of_ne_nil (IntLiterals.decimalDigits_ne_nil n)
    have hd : d < 10 := IntLiterals.lt_of_mem_decimalDigits (n := n) (by simp [hdigits])
    refine ⟨d, ds.map IntLiterals.digitPoint, hd,
      by rw [IntLiterals.decimal, hdigits, List.map_cons], fun hlead => ?_⟩
    have hne : Nat.digits 10 n ≠ [] := Nat.digits_ne_nil_iff_ne_zero.mpr hzero
    have hlast := Nat.getLast_digit_ne_zero 10 hzero
    rw [IntLiterals.decimalDigits, if_neg hzero] at hdigits
    have hhead : (Nat.digits 10 n).getLast hne = d := by
      have hheads : (Nat.digits 10 n).reverse.head? = some d := by rw [hdigits]; rfl
      rw [List.head?_reverse, List.getLast?_eq_some_getLast hne] at hheads
      exact Option.some.inj hheads
    exact absurd (hhead.trans hlead) hlast

theorem intPart_decimal (h : Delimits rest) (n : ℕ) : intPart (IntLiterals.decimal n ++ rest) =
    some (IntLiterals.decimal n, rest) := by
  obtain ⟨d, ds, hd, hcons, hzero⟩ := exists_decimal_cons n
  have hdigits : ∀ c ∈ ds, isDigit c = true := by
    intro c hc
    exact isDigit_of_mem_decimal (n := n) (by simp [hcons, hc])
  obtain ⟨htake, hdrop⟩ := takeWhile_isDigit hdigits h
  rw [hcons, List.cons_append, intPart]
  by_cases hlead : d = 0
  · subst hlead
    rw [hzero rfl, if_pos (by rfl)]
    rfl
  · have hne : IntLiterals.digitPoint d ≠ codePoint '0' := by
      intro heq
      have hval := congrArg Fin.val heq
      rw [IntLiterals.digitPoint_val hd] at hval
      change 0x30 + d = 0x30 at hval
      omega
    rw [if_neg hne, if_pos (isDigit_of_mem_decimal (n := n) (by simp [hcons])), htake, hdrop]

theorem token_digit {d : ℕ} (h : d < 10) (rest : Str) :
    token (IntLiterals.digitPoint d) rest = numberToken false (IntLiterals.digitPoint d :: rest) := by
  interval_cases d <;> rfl

theorem tokens_decimal {n : ℕ} (hn : n < 10 ^ IntLiterals.maxDigits) (h : Delimits rest) :
    tokens (IntLiterals.decimal n ++ rest) = .scalar (.int n) :: tokens rest := by
  have hnumber : numberToken false (IntLiterals.decimal n ++ rest) = (.scalar (.int n), rest) := by
    have hlength : (IntLiterals.decimal n).length ≤ IntLiterals.maxDigits := by
      rw [IntLiterals.decimal, List.length_map]
      exact IntLiterals.length_decimalDigits_le_iff.mpr hn
    simp only [numberToken, intPart_decimal h, fraction_of_delimits h, exponent_of_delimits h, jsonInt,
      if_neg (Nat.not_lt.mpr hlength), natOf_decimal]
    rfl
  obtain ⟨d, ds, hd, hcons, -⟩ := exists_decimal_cons n
  have hspace : isJsonSpace (IntLiterals.digitPoint d) = false := by interval_cases d <;> rfl
  rw [hcons, List.cons_append] at hnumber ⊢
  rw [tokens_cons hspace, token_digit hd, hnumber]

def Denotes (text : Str) (value : Json) (nesting : ℕ) : Prop :=
  ∃ t ts, t ≠ .endArray ∧ (∀ rest, Delimits rest → tokens (text ++ rest) = t :: ts ++ tokens rest) ∧
    ∀ limit (containers : List Container), containers.length + nesting ≤ limit →
      (t :: ts).foldlM (readToken limit) (.value, containers) = .ok (.after value, containers)

theorem Denotes.mono {nesting' : ℕ} (h : Denotes text value nesting) (hle : nesting ≤ nesting') :
    Denotes text value nesting' := by
  obtain ⟨t, ts, hfirst, htokens, hread⟩ := h
  exact ⟨t, ts, hfirst, htokens, fun limit containers hlimit => hread limit containers (by omega)⟩

theorem denotes_string (h : NoHighSurrogate s) : Denotes (stringText s) (.string s) 0 :=
  ⟨.scalar (.string s), [], by simp, fun rest _ => tokens_stringText h rest, fun _ _ _ => rfl⟩

theorem denotes_decimal {n : ℕ} (hn : n < 10 ^ IntLiterals.maxDigits) :
    Denotes (IntLiterals.decimal n) (.int n) 0 :=
  ⟨.scalar (.int n), [], by simp, fun _ hrest => tokens_decimal hn hrest, fun _ _ _ => rfl⟩

def nullText : Str := ['n', 'u', 'l', 'l'].map codePoint

theorem denotes_null : Denotes nullText .null 0 :=
  ⟨.scalar .null, [],
    by simp, fun rest _ => tokens_cons rfl (['u', 'l', 'l'].map codePoint ++ rest), fun _ _ _ => rfl⟩

theorem delimits_comma (rest : Str) : Delimits (codePoint ',' :: rest) := fun c hc => by
  cases hc
  exact .inl rfl

theorem delimits_newline (level : ℕ) (rest : Str) : Delimits (newline level ++ rest) := fun c hc => by
  cases hc
  exact .inr rfl

/-- A value that is not the end of an array starts its first item. -/
theorem foldlM_firstItem {t : Token} (h : t ≠ .endArray) (ts : List Token) (limit : ℕ)
    (containers : List Container) :
    (t :: ts).foldlM (readToken limit) (.firstItem, containers) =
      (t :: ts).foldlM (readToken limit) (.value, .array [] :: containers) := by
  rw [List.foldlM_cons, List.foldlM_cons]
  cases t with
  | endArray => exact absurd rfl h
  | _ => rfl

/-- Items up to the end of their array. -/
theorem exists_tokens_items {items : List (Str × Json)} (hne : items ≠ [])
    (h : ∀ item ∈ items, Denotes item.1 item.2 nesting)
    (level : ℕ) : ∃ t ts, t ≠ .endArray ∧
      (∀ rest, tokens ((codePoint ',' :: newline (level + 1)).intercalate (items.map Prod.fst) ++
        (newline level ++ codePoint ']' :: rest)) = t :: ts ++ tokens rest) ∧
      ∀ limit (containers : List Container) done, containers.length + (nesting + 1) ≤ limit →
        (t :: ts).foldlM (readToken limit) (.value, .array done :: containers) =
          .ok (.after (.array (done ++ items.map Prod.snd)), containers) := by
  induction items with
  | nil => exact absurd rfl hne
  | cons item items ih =>
    obtain ⟨t, ts, hfirst, htokens, hread⟩ := h item List.mem_cons_self
    cases items with
    | nil =>
      refine ⟨t, ts ++ [.endArray], hfirst, fun rest => ?_, fun limit containers done hlimit => ?_⟩
      · rw [List.map_singleton, List.intercalate_singleton, htokens _ (delimits_newline level _), tokens_newline,
          tokens_endArray]
        simp
      · have hitem := hread limit (.array done :: containers) (by rw [List.length_cons]; omega)
        rw [← List.cons_append, List.foldlM_append, hitem]
        rfl
    | cons item' items =>
      obtain ⟨t', ts', -, htokens', hread'⟩ := ih (List.cons_ne_nil _ _) fun i hi => h i (List.mem_cons_of_mem _ hi)
      refine ⟨t, ts ++ .comma :: t' :: ts', hfirst, fun rest => ?_, fun limit containers done hlimit => ?_⟩
      · rw [List.map_cons, List.map_cons, List.intercalate_cons_cons, ← List.map_cons, List.append_assoc,
          List.append_assoc,
          List.cons_append, htokens _ (delimits_comma _), tokens_comma, tokens_newline, htokens']
        simp
      · have hitem := hread limit (.array done :: containers) (by rw [List.length_cons]; omega)
        have hlater := hread' limit containers (done ++ [item.2]) hlimit
        rw [← List.cons_append, List.foldlM_append, hitem]
        change (t' :: ts').foldlM (readToken limit) (.value, .array (done ++ [item.2]) :: containers) = _
        rw [hlater]
        simp

theorem denotes_array {items : List (Str × Json)} (h : ∀ item ∈ items, Denotes item.1 item.2 nesting) (level : ℕ) :
    Denotes (arrayText level (items.map Prod.fst)) (.array (items.map Prod.snd)) (nesting + 1) := by
  by_cases hne : items = []
  · subst hne
    refine ⟨.beginArray, [.endArray], by simp, fun rest _ => ?_, fun limit containers hlimit => ?_⟩
    · exact (tokens_beginArray _).trans (congrArg _ (tokens_endArray rest))
    · have hroom : containers.length < limit := by omega
      simp only [List.foldlM_cons, readToken, startValue, if_pos hroom]
      rfl
  · obtain ⟨t, ts, hfirst, htokens, hread⟩ := exists_tokens_items hne h level
    refine ⟨.beginArray, t :: ts, by simp, fun rest _ => ?_, fun limit containers hlimit => ?_⟩
    · have hitems : items.map Prod.fst ≠ [] := fun hnil => hne (List.map_eq_nil_iff.mp hnil)
      rw [arrayText, bracketed, if_neg hitems, List.cons_append, tokens_beginArray, List.append_assoc,
        tokens_newline,
        List.append_assoc, List.append_assoc, List.singleton_append, htokens]
      rfl
    · have hroom : containers.length < limit := by omega
      have hopen : readToken limit (.value, containers) .beginArray = .ok (.firstItem, containers) := by
        rw [readToken, startValue, if_pos hroom]
      rw [List.foldlM_cons, hopen]
      change (t :: ts).foldlM (readToken limit) (.firstItem, containers) = _
      rw [foldlM_firstItem hfirst, hread limit containers [] hlimit]
      rfl

abbrev Member := Str × Str × Json

def Member.written (member : Member) : Str × Str := (member.1, member.2.1)

def setMembers (done : List (Str × Json)) (members : List Member) : List (Str × Json) :=
  members.foldl (fun done member => setMember member.1 member.2.2 done) done

theorem tokens_memberText {member : Member} (hkey : NoHighSurrogate member.1) (rest : Str) :
    tokens (memberText member.written ++ rest) = .scalar (.string member.1) :: .colon :: tokens
    (member.2.1 ++ rest) := by
  have hspace : tokens ([codePoint ' '] ++ (member.2.1 ++ rest)) = tokens (member.2.1 ++ rest) := by
    apply tokens_space_append
    intro c hc
    rw [List.mem_singleton.mp hc]
    rfl
  rw [memberText, Member.written, List.append_assoc, tokens_stringText hkey, List.cons_append,
    tokens_colon, ← hspace]
  rfl

/-- Members up to the end of their object. -/
theorem exists_tokens_members {members : List Member} (hne : members ≠ [])
    (h : ∀ member ∈ members, NoHighSurrogate member.1 ∧ Denotes member.2.1 member.2.2 nesting) (level : ℕ) :
    ∃ key ts, (∀ rest, tokens ((codePoint ',' :: newline (level + 1)).intercalate
      ((members.map Member.written).map memberText) ++
        (newline level ++ codePoint '}' :: rest)) = .scalar (.string key) :: ts ++ tokens rest) ∧
      ∀ limit (containers : List Container) done, containers.length + (nesting + 1) ≤ limit →
        (.scalar (.string key) :: ts).foldlM (readToken limit) (.key done, containers) =
          .ok (.after (.object (setMembers done members)), containers) := by
  induction members with
  | nil => exact absurd rfl hne
  | cons member members ih =>
    obtain ⟨hkey, t, ts, -, htokens, hread⟩ := h member List.mem_cons_self
    cases members with
    | nil =>
      refine ⟨member.1, .colon :: t :: ts ++ [.endObject], fun rest => ?_, fun limit containers done hlimit => ?_⟩
      · rw [List.map_singleton, List.map_singleton, List.intercalate_singleton, tokens_memberText hkey,
          htokens _ (delimits_newline level _), tokens_newline, tokens_endObject]
        simp
      · have hvalue := hread limit (.object done member.1 :: containers) (by rw [List.length_cons]; omega)
        change (t :: ts ++ [Token.endObject]).foldlM (readToken limit)
          (.value, .object done member.1 :: containers) = _
        rw [List.foldlM_append, hvalue]
        rfl
    | cons member' members =>
      obtain ⟨key', ts', htokens', hread'⟩ := ih (List.cons_ne_nil _ _) fun m hm => h m (List.mem_cons_of_mem _ hm)
      refine ⟨member.1, .colon :: t :: ts ++ .comma :: .scalar (.string key') :: ts', fun rest => ?_,
        fun limit containers done hlimit => ?_⟩
      · rw [List.map_cons, List.map_cons, List.map_cons, List.map_cons, List.intercalate_cons_cons, ← List.map_cons,
          ← List.map_cons, List.append_assoc, List.append_assoc, tokens_memberText hkey, List.cons_append,
          htokens _ (delimits_comma _), tokens_comma, tokens_newline, htokens']
        simp
      · have hvalue := hread limit (.object done member.1 :: containers) (by rw [List.length_cons]; omega)
        have hlater := hread' limit containers (setMember member.1 member.2.2 done) hlimit
        change (t :: ts ++ Token.comma :: .scalar (.string key') :: ts').foldlM (readToken limit)
          (.value, .object done member.1 :: containers) = _
        rw [List.foldlM_append, hvalue]
        exact hlater

theorem denotes_object {members : List Member}
    (h : ∀ member ∈ members, NoHighSurrogate member.1 ∧ Denotes member.2.1 member.2.2 nesting) (level : ℕ) :
    Denotes (objectText level (members.map Member.written)) (.object (setMembers [] members)) (nesting + 1) := by
  by_cases hne : members = []
  · subst hne
    refine ⟨.beginObject, [.endObject], by simp, fun rest _ => ?_, fun limit containers hlimit => ?_⟩
    · exact (tokens_beginObject _).trans (congrArg _ (tokens_endObject rest))
    · have hroom : containers.length < limit := by omega
      simp only [List.foldlM_cons, readToken, startValue, if_pos hroom]
      rfl
  · obtain ⟨key, ts, htokens, hread⟩ := exists_tokens_members hne h level
    refine ⟨.beginObject, .scalar (.string key) :: ts, by simp, fun rest _ => ?_, fun limit containers hlimit => ?_⟩
    · have hitems : (members.map Member.written).map memberText ≠ [] := fun hnil =>
        hne (List.map_eq_nil_iff.mp (List.map_eq_nil_iff.mp hnil))
      rw [objectText, bracketed, if_neg hitems, List.cons_append, tokens_beginObject, List.append_assoc,
        tokens_newline,
        List.append_assoc, List.append_assoc, List.singleton_append, htokens]
      rfl
    · have hroom : containers.length < limit := by omega
      have hopen : readToken limit (.value, containers) .beginObject = .ok (.firstKey, containers) := by
        rw [readToken, startValue, if_pos hroom]
      rw [List.foldlM_cons, hopen]
      exact hread limit containers [] hlimit

/-- A text with the tokens of another one denotes its value. -/
theorem Denotes.of_tokens {text' : Str} (h : Denotes text value nesting)
    (htokens : ∀ rest, tokens (text' ++ rest) = tokens (text ++ rest)) : Denotes text' value nesting := by
  obtain ⟨t, ts, hfirst, hread, hfold⟩ := h
  exact ⟨t, ts, hfirst, fun rest hrest => (htokens rest).trans (hread rest hrest), hfold⟩

/-- An object whose one member is an array of strings, as `separators=(",", ":")` has it. -/
def compactStrings (key : Str) (strings : List Str) : Str :=
  codePoint '{' :: (stringText key ++ codePoint ':' :: codePoint '[' ::
    ([codePoint ','].intercalate (strings.map stringText) ++ [codePoint ']', codePoint '}']))

theorem tokens_strings {strings : List Str} {rest' : Str} (h : ∀ s ∈ strings, NoHighSurrogate s) (level : ℕ)
    (hrest : tokens rest = tokens rest') : tokens ([codePoint ','].intercalate (strings.map stringText) ++ rest) =
      tokens ((codePoint ',' :: newline level).intercalate (strings.map stringText) ++ rest') := by
  induction strings with
  | nil => exact hrest
  | cons s strings ih =>
    have hs := h s List.mem_cons_self
    have ih := ih fun s hs => h s (List.mem_cons_of_mem _ hs)
    cases strings with
    | nil => rw [List.map_singleton, List.intercalate_singleton, List.intercalate_singleton, tokens_stringText hs,
        tokens_stringText hs, hrest]
    | cons s' strings =>
      rw [List.map_cons, List.map_cons, List.intercalate_cons_cons, List.intercalate_cons_cons, ← List.map_cons]
      simp only [List.append_assoc, List.cons_append, List.nil_append]
      rw [tokens_stringText hs, tokens_stringText hs, tokens_comma, tokens_comma, tokens_newline, ih]

theorem tokens_arrayText {strings : List Str} {rest' : Str} (h : ∀ s ∈ strings, NoHighSurrogate s) (level : ℕ)
    (hrest : tokens rest = tokens rest') :
    tokens (codePoint '[' :: ([codePoint ','].intercalate (strings.map stringText) ++ codePoint ']' :: rest)) =
      tokens (arrayText level (strings.map stringText) ++ rest') := by
  unfold arrayText bracketed
  by_cases hnil : strings = []
  · rw [hnil]
    change tokens (codePoint '[' :: codePoint ']' :: rest) = tokens (codePoint '[' :: codePoint ']' :: rest')
    rw [tokens_beginArray, tokens_beginArray, tokens_endArray, tokens_endArray, hrest]
  · have hne : strings.map stringText ≠ [] := fun hmap => hnil (List.map_eq_nil_iff.mp hmap)
    have hclosing : tokens (codePoint ']' :: rest) = tokens (newline level ++ codePoint ']' :: rest') := by
      rw [tokens_newline, tokens_endArray, tokens_endArray, hrest]
    rw [if_neg hne]
    simp only [List.cons_append, List.append_assoc, List.nil_append]
    rw [tokens_beginArray, tokens_beginArray, tokens_newline, tokens_strings h (level + 1) hclosing]

theorem denotes_compactStrings {key : Str} {strings : List Str} (hkey : NoHighSurrogate key)
    (h : ∀ s ∈ strings, NoHighSurrogate s) :
    Denotes (compactStrings key strings) (.object [(key, .array (strings.map .string))]) 2 := by
  have hitems : ∀ item ∈ strings.map fun s => (stringText s, Json.string s), Denotes item.1 item.2 0 := by
    intro item hitem
    obtain ⟨s, hs, rfl⟩ := List.mem_map.mp hitem
    exact denotes_string (h s hs)
  have harray : Denotes (arrayText 1 (strings.map stringText)) (.array (strings.map .string)) 1 := by
    have hlevel := denotes_array hitems 1
    rwa [List.map_map, List.map_map] at hlevel
  have hmember : ∀ member ∈ [(key, arrayText 1 (strings.map stringText), Json.array (strings.map .string))],
      NoHighSurrogate member.1 ∧ Denotes member.2.1 member.2.2 1 := by
    intro member hmember
    rw [List.mem_singleton.mp hmember]
    exact ⟨hkey, harray⟩
  apply (denotes_object hmember 0).of_tokens
  intro rest
  have hmembers : tokens (objectText 0 [(key, arrayText 1 (strings.map stringText))] ++ rest) =
      .beginObject :: .scalar (.string key) :: .colon ::
        tokens (arrayText 1 (strings.map stringText) ++ (newline 0 ++ codePoint '}' :: rest)) := by
    rw [objectText, bracketed, if_neg (by simp), List.map_singleton, List.intercalate_singleton]
    simp only [List.cons_append, List.append_assoc, List.nil_append]
    rw [tokens_beginObject, tokens_newline]
    exact congrArg _ (@tokens_memberText (key, arrayText 1 (strings.map stringText), .null) hkey _)
  have hclosing : tokens (codePoint '}' :: rest) = tokens (newline 0 ++ codePoint '}' :: rest) :=
    (tokens_newline 0 _).symm
  have hcompact : tokens (compactStrings key strings ++ rest) =
      .beginObject :: .scalar (.string key) :: .colon ::
        tokens (arrayText 1 (strings.map stringText) ++ (newline 0 ++ codePoint '}' :: rest)) := by
    rw [compactStrings]
    simp only [List.cons_append, List.append_assoc, List.nil_append]
    rw [tokens_beginObject, tokens_stringText hkey, tokens_colon, tokens_arrayText h 1 hclosing]
  exact hcompact.trans hmembers.symm

/-- A whole text. -/
theorem loads_of_denotes {limit : ℕ} (h : Denotes text value nesting) (hlimit : nesting ≤ limit)
    (hmark : text.head? ≠ some (codePoint '\ufeff')) (hne : text ≠ []) :
    loads limit (text ++ [codePoint '\n']) = .ok value := by
  obtain ⟨t, ts, -, htokens, hread⟩ := h
  have hhead : (text ++ [codePoint '\n']).head? ≠ some (codePoint '\ufeff') := by
    rw [List.head?_append_of_ne_nil _ hne]
    exact hmark
  have hend : tokens [codePoint '\n'] = [] := rfl
  have hdelimits : Delimits [codePoint '\n'] := delimits_newline 0 []
  rw [loads, if_neg hhead, htokens _ hdelimits, hend, List.append_nil, hread limit [] (by simpa using hlimit)]
  rfl

theorem getMember_setMember (key key' : Str) (value : Json) (members : List (Str × Json)) :
    getMember key (setMember key' value members) = if key' = key then some value else getMember key members := by
  induction members with
  | nil =>
    by_cases hkey : key' = key
    · simp [getMember, setMember, hkey]
    · simp [getMember, setMember, hkey]
  | cons member members ih =>
    rw [setMember]
    by_cases hsame : member.1 = key'
    · rw [if_pos hsame]
      by_cases hkey : key' = key
      · simp [getMember, hkey]
      · simp [getMember, hsame, hkey]
    · rw [if_neg hsame]
      unfold getMember at ih ⊢
      by_cases hfirst : member.1 = key
      · have hkey : key' ≠ key := fun heq => hsame (hfirst.trans heq.symm)
        simp [hfirst, hkey]
      · simpa [List.find?_cons, hfirst] using ih

theorem getMember_setMembers_of_notMem {key : Str} {members : List Member} {done : List (Str × Json)}
    (h : key ∉ members.map Prod.fst) : getMember key (setMembers done members) = getMember key done := by
  induction members generalizing done with
  | nil => rfl
  | cons member members ih =>
    rw [List.map_cons, List.mem_cons, not_or] at h
    change getMember key (setMembers (setMember member.1 member.2.2 done) members) = _
    rw [ih h.2, getMember_setMember, if_neg (Ne.symm h.1)]

/-- A member with a key of its own is found. -/
theorem getMember_setMembers {member : Member} {members : List Member} (hnodup : (members.map Prod.fst).Nodup)
    (h : member ∈ members) (done : List (Str × Json)) :
    getMember member.1 (setMembers done members) = some member.2.2 := by
  induction members generalizing done with
  | nil => cases h
  | cons first members ih =>
    rw [List.map_cons, List.nodup_cons] at hnodup
    change getMember member.1 (setMembers (setMember first.1 first.2.2 done) members) = _
    rcases List.mem_cons.mp h with rfl | h
    · rw [getMember_setMembers_of_notMem hnodup.1, getMember_setMember, if_pos rfl]
    · exact ih hnodup.2 h _

end WorkerHarness.JsonWriting
