import WorkerHarness.RemoteShim

/-!
# Arguments for the shim

How the adapter of the herdr servers writes the arguments of a verb, and that the shim reads the
same arguments.
-/

namespace WorkerHarness.HerdrHost

open BashStrings RemoteShim

/-- A character of `_LITERAL_TOKEN`. -/
def isLiteralChar (c : Char) : Bool :=
  c.isAlphanum || c = '.' || c = '_' || c = '/' || c = '@' || c = ':' || c = '=' || c = '+' || c = ',' || c = '-'

/-- The tokens that the shim can carry literally. -/
def isLiteral (value : String) : Bool :=
  value ≠ "" && value.toList.all isLiteralChar && !decide ("..".toList <:+: value.toList) &&
    !decide ("b64:".toList <+: value.toList)

/-- `base64.b64encode(value.encode()).decode()`. -/
def b64encode (value : String) : String := decodeAscii (Base64.encode (utf8 value))

/-- `encode_arg`. -/
def encodeArg (value : String) : Except String String :=
  if '\x00' ∈ value.toList then .error "shim arguments cannot contain NUL"
  else if isLiteral value then .ok value
  else .ok ("b64:" ++ b64encode value)

/-- The command that `shim` sends. -/
def shimCommand (args : List String) : Except String String := do
  if args = [] then throw "shim() needs a verb"
  else
    let tokens ← args.mapM encodeArg
    return " ".intercalate tokens

/-- The command that `herdr` sends. -/
def herdrCommand (args : List String) : Except String String := do
  let tokens ← args.mapM encodeArg
  return " ".intercalate ("herdr" :: tokens)

def token (value : String) : String := if isLiteral value then value else "b64:" ++ b64encode value

theorem encodeArg_eq {value : String} (h : '\x00' ∉ value.toList) : encodeArg value = .ok (token value) := by
  rw [encodeArg, if_neg h, token]
  split <;> rfl

theorem mapM_encodeArg {args : List String} (h : ∀ a ∈ args, '\x00' ∉ a.toList) :
    args.mapM encodeArg = .ok (args.map token) := by
  induction args with
  | nil => rfl
  | cons a args ih =>
    have ha := encodeArg_eq (h a (List.mem_cons_self ..))
    have hrest := ih fun b hb => h b (List.mem_cons_of_mem _ hb)
    rw [List.mapM_cons, ha, hrest]
    rfl

/-- What a literal token consists of. -/
structure Literal (value : String) : Prop where
  ne_empty : value ≠ ""
  chars : ∀ c ∈ value.toList, isLiteralChar c = true
  unprefixed : ¬"b64:".toList <+: value.toList

theorem literal_of_isLiteral {value : String} (h : isLiteral value = true) : Literal value := by
  simp only [isLiteral, Bool.and_eq_true, decide_eq_true_eq, Bool.not_eq_true', decide_eq_false_iff_not,
    List.all_eq_true] at h
  exact ⟨h.1.1.1, h.1.1.2, h.2⟩

theorem isAlphanum_cases {c : Char} (h : c.isAlphanum = true) : (65 ≤ c.toNat ∧ c.toNat ≤ 90) ∨
    (97 ≤ c.toNat ∧ c.toNat ≤ 122) ∨ (48 ≤ c.toNat ∧ c.toNat ≤ 57) := by
  have hparts : (decide (c.val ≥ 65 ∧ c.val ≤ 90) || (decide (c.val ≥ 97) && decide (c.val ≤ 122)) ||
      (decide (c.val ≥ 48) && decide (c.val ≤ 57))) = true := h
  simp only [Bool.or_eq_true, Bool.and_eq_true, decide_eq_true_eq, UInt32.le_iff_toNat_le, ge_iff_le] at hparts
  rcases hparts with (hparts | hparts) | hparts
  · exact .inl hparts
  · exact .inr (.inl hparts)
  · exact .inr (.inr hparts)

theorem literalChar_lt {c : Char} (h : isLiteralChar c = true) : 32 < c.toNat ∧ c.toNat < 128 := by
  simp only [isLiteralChar, Bool.or_eq_true, decide_eq_true_eq] at h
  rcases h with ((((((((h | rfl) | rfl) | rfl) | rfl) | rfl) | rfl) | rfl) | rfl) | rfl
  · have hcases := isAlphanum_cases h
    omega
  all_goals decide

/-- Literal text as bytes. -/
theorem Literal.utf8_eq {value : String} (h : Literal value) :
    utf8 value = value.toList.map fun c => .ofNat c.toNat :=
  utf8_ascii fun c hc => (literalChar_lt (h.chars c hc)).2

theorem toNat_byte {c : Char} (hc : c.toNat < 128) : (UInt8.ofNat c.toNat).toNat = c.toNat := by
  rw [UInt8.toNat_ofNat']
  omega

def Visible (w : Bytes) : Prop := ∀ b ∈ w, 32 < b.toNat

theorem Visible.ne {w : Bytes} (h : Visible w) {n : UInt8} (hn : n.toNat ≤ 32) : n ∉ w := fun hmem =>
  absurd (h n hmem) (Nat.not_lt.mpr hn)

theorem Visible.isWord {w : Bytes} (h : Visible w) (hne : w ≠ []) : IsWord w := by
  refine ⟨hne, fun b hb => ?_⟩
  have hspace : b ≠ 32 := fun heq => h.ne (by decide) (heq ▸ hb)
  have htab : b ≠ 9 := fun heq => h.ne (by decide) (heq ▸ hb)
  have hnewline : b ≠ 10 := fun heq => h.ne (by decide) (heq ▸ hb)
  simp [isBlank, newline, hspace, htab, hnewline]

theorem Literal.visible {value : String} (h : Literal value) : Visible (utf8 value) := by
  rw [h.utf8_eq]
  intro b hb
  obtain ⟨c, hc, rfl⟩ := List.mem_map.mp hb
  obtain ⟨hlow, hhigh⟩ := literalChar_lt (h.chars c hc)
  rwa [toNat_byte hhigh]

theorem Literal.utf8_ne_nil {value : String} (h : Literal value) : utf8 value ≠ [] := by
  rw [h.utf8_eq]
  simpa using h.ne_empty

/-- A literal token is not taken for an encoded one. -/
theorem Literal.not_b64 {value : String} (h : Literal value) : ¬b64 <+: utf8 value := by
  intro hprefix
  have hvalue : (utf8 value).map (fun b => Char.ofNat b.toNat) = value.toList := by
    rw [h.utf8_eq, List.map_map]
    conv_rhs => rw [← List.map_id value.toList]
    refine List.map_congr_left fun c hc => ?_
    simp [toNat_byte (literalChar_lt (h.chars c hc)).2]
  have hb64 : b64.map (fun b => Char.ofNat b.toNat) = "b64:".toList := by decide
  refine h.unprefixed ?_
  rw [← hvalue, ← hb64]
  exact hprefix.map _

theorem utf8_b64encode (value : String) : utf8 (b64encode value) = Base64.encode (utf8 value) :=
  utf8_decodeAscii fun _ hb => Base64.ascii_of_mem_encode hb

theorem utf8_encoded (value : String) : utf8 ("b64:" ++ b64encode value) = b64 ++ Base64.encode (utf8 value) := by
  rw [utf8_append, utf8_b64encode]
  rfl

theorem encoded_visible (bytes : Bytes) : Visible (b64 ++ Base64.encode bytes) := by
  have htable : ∀ n < 256, Base64.Encoded (.ofNat n) → 32 < n := by decide +kernel
  have hb64 : ∀ b ∈ b64, 32 < b.toNat := by decide +kernel
  intro b hb
  rcases List.mem_append.mp hb with hb | hb
  · exact hb64 b hb
  · refine htable b.toNat b.toNat_lt ?_
    rw [UInt8.ofNat_toNat]
    exact Base64.encoded_of_mem_encode hb

theorem token_visible (value : String) : Visible (utf8 (token value)) := by
  unfold token
  split
  · next h => exact (literal_of_isLiteral h).visible
  · rw [utf8_encoded]
    exact encoded_visible _

theorem token_ne_nil (value : String) : utf8 (token value) ≠ [] := by
  unfold token
  split
  · next h => exact (literal_of_isLiteral h).utf8_ne_nil
  · rw [utf8_encoded]
    simp [b64, utf8, String.utf8EncodeChar]

/-- `base64 -d` undoes the encoding. -/
def Decodes (host : ShimHost) : Prop := ∀ bytes, host.base64Decode (Base64.encode bytes) = some bytes

variable {host : ShimHost}

/-- Only the character NUL has a NUL byte. -/
theorem utf8EncodeChar_nul {c : Char} (h : (0 : UInt8) ∈ String.utf8EncodeChar c) : c = '\x00' := by
  have hbyte : ∀ n, (0 : UInt8) = .ofNat n → n % 256 = 0 := fun n hn => by
    have htoNat := congrArg UInt8.toNat hn
    rw [UInt8.toNat_ofNat'] at htoNat
    exact htoNat.symm
  have hzero : c.val.toNat = 0 := by
    unfold String.utf8EncodeChar at h
    dsimp only at h
    split at h
    · have := hbyte _ (List.mem_singleton.mp h)
      omega
    · split at h
      · simp only [List.mem_cons, List.not_mem_nil, or_false] at h
        rcases h with h | h <;> have := hbyte _ h <;> omega
      · split at h
        · simp only [List.mem_cons, List.not_mem_nil, or_false] at h
          rcases h with h | h | h <;> have := hbyte _ h <;> omega
        · simp only [List.mem_cons, List.not_mem_nil, or_false] at h
          rcases h with h | h | h | h <;> have := hbyte _ h <;> omega
  exact Char.ext (UInt32.toNat_inj.mp hzero)

theorem nul_of_utf8 {value : String} (h : (0 : UInt8) ∈ utf8 value) : '\x00' ∈ value.toList := by
  obtain ⟨c, hc, hmem⟩ := List.mem_flatMap.mp h
  exact utf8EncodeChar_nul hmem ▸ hc

theorem decodeToken_token (hd : Decodes host) {value : String} (h : '\x00' ∉ value.toList) (log : List Action) :
    decodeToken host (utf8 (token value)) log = (.ok (utf8 value), log) := by
  unfold token
  split
  · next hliteral =>
    rw [decodeToken, if_neg (literal_of_isLiteral hliteral).not_b64]
    rfl
  · have hnul : (0 : UInt8) ∉ utf8 value := fun hmem => h (nul_of_utf8 hmem)
    have hdot : utf8 "." = [46] := by decide
    have hvalue : removeSuffix (utf8 ".") (commandSubstitution (utf8 value ++ utf8 ".")) = utf8 value := by
      rw [hdot, commandSubstitution_sentinel (by decide) (by decide), filter_nul hnul, removeSuffix_append]
    rw [utf8_encoded, decodeToken, if_pos (List.prefix_append ..), removePrefix_append, hd]
    dsimp only
    rw [hvalue, if_pos (commandSubstitution_encode _)]
    rfl

theorem decodeArgs_tokens (hd : Decodes host) {args : List String} (h : ∀ a ∈ args, '\x00' ∉ a.toList)
    (log : List Action) :
    decodeArgs host (args.map fun a => utf8 (token a)) log = (.ok (args.map utf8), log) := by
  induction args with
  | nil => rfl
  | cons a args ih =>
    have ha := decodeToken_token hd (h a (List.mem_cons_self ..)) log
    have hrest := ih fun b hb => h b (List.mem_cons_of_mem _ hb)
    rw [List.map_cons, decodeArgs, bind_of_ok ha, bind_of_ok hrest]
    rfl

theorem utf8_intercalate (tokens : List String) :
    utf8 (" ".intercalate tokens) = List.intercalate [32] (tokens.map utf8) := by
  induction tokens with
  | nil => rfl
  | cons t tokens ih =>
    cases tokens with
    | nil => simp [List.intercalate]
    | cons u tokens =>
      have hblank : utf8 " " = [32] := by decide
      rw [String.intercalate_cons_cons, utf8_append, utf8_append, ih, hblank, List.map_cons, List.map_cons,
        List.map_cons,
        intercalate_cons_cons]
      simp

/-- Joined tokens are one line, and its words are the tokens. -/
theorem words_command (tokens : List String) (h : ∀ t ∈ tokens, Visible (utf8 t) ∧ utf8 t ≠ []) :
    words (utf8 (" ".intercalate tokens)) = tokens.map utf8 := by
  rw [utf8_intercalate]
  refine words_intercalate (by decide) fun w hw => ?_
  obtain ⟨t, ht, rfl⟩ := List.mem_map.mp hw
  exact (h t ht).1.isWord (h t ht).2

theorem not_mem_command {tokens : List String} (h : ∀ t ∈ tokens, Visible (utf8 t)) {n : UInt8}
    (hn : n.toNat < 32) :
    n ∉ utf8 (" ".intercalate tokens) := by
  rw [utf8_intercalate]
  intro hmem
  rcases mem_intercalate hmem with rfl | ⟨w, hw, hmem⟩
  · exact absurd hn (by decide)
  · obtain ⟨t, ht, rfl⟩ := List.mem_map.mp hw
    exact (h t ht).ne (Nat.le_of_lt hn) hmem

/-- `herdr` sends what `shim` would send for the verb. -/
theorem herdrCommand_eq (args : List String) : herdrCommand args = shimCommand ("herdr" :: args) := by
  have hverb : encodeArg "herdr" = .ok "herdr" := by decide
  rw [herdrCommand, shimCommand, if_neg (List.cons_ne_nil _ _), List.mapM_cons, hverb]
  cases args.mapM encodeArg <;> rfl

theorem encodeArg_literal {verb : String} (h : isLiteral verb = true) : '\x00' ∉ verb.toList ∧
    token verb = verb := by
  refine ⟨fun hnul => ?_, if_pos h⟩
  have hvisible := (literalChar_lt ((literal_of_isLiteral h).chars _ hnul)).1
  revert hvisible
  decide

theorem shimCommand_eq {args : List String} (hne : args ≠ []) (h : ∀ a ∈ args, '\x00' ∉ a.toList) :
    shimCommand args = .ok (" ".intercalate (args.map token)) := by
  rw [shimCommand, if_neg hne, mapM_encodeArg h]
  rfl

theorem requireOneLine_command {tokens : List String} (hne : tokens ≠ [])
    (h : ∀ t ∈ tokens, Visible (utf8 t) ∧ utf8 t ≠ []) (log : List Action) :
    requireOneLine (utf8 (" ".intercalate tokens)) log = (.ok (), log) := by
  have hvisible : ∀ t ∈ tokens, Visible (utf8 t) := fun t ht => (h t ht).1
  have hcommand : utf8 (" ".intercalate tokens) ≠ [] := by
    intro hnil
    have hwords := words_command tokens h
    rw [hnil] at hwords
    exact hne (List.map_eq_nil_iff.mp hwords.symm)
  have hlines : ¬(newline ∈ utf8 (" ".intercalate tokens) ∨ 13 ∈ utf8 (" ".intercalate tokens)) := by
    rw [not_or]
    exact ⟨not_mem_command hvisible (by decide), not_mem_command hvisible (by decide)⟩
  rw [requireOneLine, if_neg hcommand, if_neg hlines]
  rfl

/-- The shim gets exactly the arguments that follow a literal verb; and in whatever it does not
refuse, every encoded token stands for the one argument that is encoded like this, every other token
for itself. -/
theorem arguments_arrive :
    (Decodes host → ∀ (verb : String) (args : List String), isLiteral verb = true →
      (∀ a ∈ args, '\x00' ∉ a.toList) →
      ∃ command, shimCommand (verb :: args) = .ok command ∧
        ∀ log, requireOneLine (utf8 command) log = (.ok (), log) ∧
          readArguments host (utf8 command) log = (.ok (utf8 verb, args.map utf8), log)) ∧
    ∀ (original verb : Bytes) (args : List Bytes) (log log' : List Action),
      readArguments host original log = (.ok (verb, args), log') →
        ∃ tokens, words original = verb :: tokens ∧ List.Forall₂ StandsFor tokens args := by
  constructor
  · intro hd verb args hverb hargs
    obtain ⟨hnul, hsame⟩ := encodeArg_literal hverb
    have hall : ∀ a ∈ verb :: args, '\x00' ∉ a.toList := fun a ha => by
      rcases List.mem_cons.mp ha with rfl | ha
      · exact hnul
      · exact hargs a ha
    have htokens : ∀ t ∈ (verb :: args).map token, Visible (utf8 t) ∧ utf8 t ≠ [] := fun t ht => by
      obtain ⟨a, -, rfl⟩ := List.mem_map.mp ht
      exact ⟨token_visible a, token_ne_nil a⟩
    refine ⟨_, shimCommand_eq (List.cons_ne_nil _ _) hall, fun log => ⟨?_, ?_⟩⟩
    · exact requireOneLine_command (by simp) htokens log
    · have hwords : words (utf8 (" ".intercalate ((verb :: args).map token))) =
          utf8 verb :: args.map fun a => utf8 (token a) := by
        rw [words_command _ htokens, List.map_cons, List.map_cons, hsame, List.map_map]
        rfl
      rw [readArguments, hwords]
      dsimp only
      rw [bind_of_ok (decodeArgs_tokens hd hargs log)]
      rfl
  · intro original verb args log log' hrun
    rcases @checks_readArguments host original log with ⟨r, hr, hwords⟩ | ⟨message, hr⟩
    · rw [hr] at hrun
      cases hrun
      exact hwords
    · rw [hr] at hrun
      cases hrun

/-- A machine whose files are as their names say. -/
def plainHost : ShimHost where
  home := utf8 "/home/u"
  realpathExisting path := some path
  realpathMissing path := some path
  base64Decode := Base64.decode
  dirname _ := utf8 "/home/u/.cache/worker-harness"
  content _ := []
  mkdir _ := true

theorem arguments_arrive_herdr : ∃ command,
    shimCommand ["herdr", "pane", "run", "b64:YWJj", "", "echo ../repo\n\n", "π\n"] = .ok command ∧
      ∀ log, readArguments plainHost (utf8 command) log =
        (.ok (utf8 "herdr", ["pane", "run", "b64:YWJj", "", "echo ../repo\n\n", "π\n"].map utf8), log) := by
  obtain ⟨command, hcommand, harrive⟩ := (@arguments_arrive plainHost).1 Base64.decode_encode "herdr"
    ["pane", "run", "b64:YWJj", "", "echo ../repo\n\n", "π\n"] (by decide) (by decide)
  exact ⟨command, hcommand, fun log => (harrive log).2⟩

end WorkerHarness.HerdrHost
