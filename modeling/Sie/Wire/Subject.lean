import Mathlib.Data.List.Infix

/-!
# NATS subjects

The subjects work is published on, as the gateway's `queue/publisher.rs` builds them and the
sidecar's `subject.rs` reads them, the three normalizations of a model id (the third is that
of the SDK's `queue_types.py`), and the overlap of two consumer filters.

A text is the list of its characters.
-/

namespace Sie.Wire

open List

abbrev Text := List Char

/-! ## Replacing -/

/-- `str::replace` with a character pattern. -/
def replaceChar (p : Char → Bool) (into : Text) (text : Text) : Text :=
  text.flatMap fun c => if p c then into else [c]

/-- `str::replace` with a string pattern, from left to right; the first `skip` characters
belong to the last match. -/
def replaceFrom (pat into : Text) : ℕ → Text → Text
  | _, [] => []
  | skip + 1, _ :: text => replaceFrom pat into skip text
  | 0, c :: text =>
    if pat.isPrefixOf (c :: text) then into ++ replaceFrom pat into (pat.length - 1) text
    else c :: replaceFrom pat into 0 text

def replace (pat into text : Text) : Text := replaceFrom pat into 0 text

/-! ## Model ids -/

/-- `char::is_control`: the characters of the category Cc. -/
def isControl (c : Char) : Bool :=
  c.toNat < 0x20 || (0x7F ≤ c.toNat && c.toNat ≤ 0x9F)

/-- The code of a slash. -/
def slashCode : Text := ['_', '_']

/-- The code of a point. -/
def pointCode : Text := ['_', 'd', 'o', 't', '_']

def Gateway.normalizeChar (c : Char) : Text :=
  if c = '/' then slashCode
  else if c = '.' then pointCode
  else if c = '*' || c = '>' || c = ' ' then ['_']
  else if isControl c then ['_']
  else [c]

/-- `normalize_model_id` of the gateway. -/
def Gateway.normalizeModelId (modelId : Text) : Text := modelId.flatMap Gateway.normalizeChar

/-- `normalize_model_id` of the sidecar. -/
def Sidecar.normalizeModelId (modelId : Text) : Text :=
  replaceChar (fun c => c = '*' || c = '>' || c = ' ') ['_']
    (replaceChar (· = '.') pointCode (replaceChar (· = '/') slashCode modelId))

/-- `normalize_model_id` of the SDK. -/
def Sdk.normalizeModelId (modelId : Text) : Text :=
  let result := replaceChar (· = '/') slashCode modelId
  let result := replaceChar (· = '.') pointCode result
  let result := replaceChar (· = '*') ['_'] result
  let result := replaceChar (· = '>') ['_'] result
  replaceChar (· = ' ') ['_'] result

/-- The characters that have a meaning in a subject, or may not stand in one: the separator,
the wildcards, and what ends a subject in the protocol. -/
def isSpecial (c : Char) : Bool :=
  c = '.' || c = '*' || c = '>' || c = ' ' || isControl c

/-- The text is one token of a subject. -/
def IsToken (text : Text) : Prop := text ≠ [] ∧ ∀ c ∈ text, isSpecial c = false

instance (text : Text) : Decidable (IsToken text) :=
  haveI : Decidable (∀ c ∈ text, isSpecial c = false) := decidableBAll _ _
  inferInstanceAs (Decidable (_ ∧ _))

theorem Gateway.normalizeChar_ne_nil (c : Char) : normalizeChar c ≠ [] := by
  unfold normalizeChar slashCode pointCode
  split_ifs <;> simp

variable {c : Char}

theorem Gateway.not_special_normalizeChar {d : Char} (h : d ∈ normalizeChar c) :
    isSpecial d = false := by
  have hslash : ∀ d ∈ slashCode, isSpecial d = false := by simp [slashCode, isSpecial, isControl]
  have hdot : ∀ d ∈ pointCode, isSpecial d = false := by simp [pointCode, isSpecial, isControl]
  unfold normalizeChar at h
  split_ifs at h with h₁ h₂ h₃ h₄
  · exact hslash d h
  · exact hdot d h
  · exact hslash d (mem_of_mem_take (i := 1) h)
  · exact hslash d (mem_of_mem_take (i := 1) h)
  · simp_all [isSpecial]

/-- What the gateway makes of an id is one token. -/
theorem Gateway.isToken_normalizeModelId {modelId : Text} (h : modelId ≠ []) :
    IsToken (normalizeModelId modelId) := by
  refine ⟨?_, fun d hd => ?_⟩
  · obtain ⟨c, _, rfl⟩ := exists_cons_of_ne_nil h
    simp [normalizeModelId, normalizeChar_ne_nil]
  · obtain ⟨c, -, hd⟩ := mem_flatMap.mp hd
    exact not_special_normalizeChar hd

/-- The other two do the same to a character that is no control character. -/
theorem normalize_char (h : isControl c = false) :
    Sidecar.normalizeModelId [c] = Gateway.normalizeChar c ∧
      Sdk.normalizeModelId [c] = Gateway.normalizeChar c := by
  simp [Sidecar.normalizeModelId, Sdk.normalizeModelId, Gateway.normalizeChar, replaceChar, h]
  by_cases h₁ : c = '/'
  · subst h₁
    decide
  by_cases h₂ : c = '.'
  · subst h₂
    decide
  by_cases h₃ : c = '*'
  · subst h₃
    decide
  by_cases h₄ : c = '>'
  · subst h₄
    decide
  by_cases h₅ : c = ' '
  · subst h₅
    decide
  simp [h₁, h₂, h₃, h₄, h₅]

theorem replaceChar_append (p : Char → Bool) (into a b : Text) :
    replaceChar p into (a ++ b) = replaceChar p into a ++ replaceChar p into b := flatMap_append ..

/-- The other two leave a control character. -/
theorem normalize_control (h : isControl c = true) :
    Sidecar.normalizeModelId [c] = [c] ∧ Sdk.normalizeModelId [c] = [c] := by
  have hne : c ≠ '/' ∧ c ≠ '.' ∧ c ≠ '*' ∧ c ≠ '>' ∧ c ≠ ' ' := by
    refine ⟨?_, ?_, ?_, ?_, ?_⟩ <;> rintro rfl <;> cases h
  simp [Sidecar.normalizeModelId, Sdk.normalizeModelId, replaceChar, hne]

/-- A normalization that goes character by character, like the gateway's for plain characters,
and that leaves control characters. -/
theorem agrees_iff {f : Text → Text} (hnil : f [] = [])
    (happend : ∀ a b, f (a ++ b) = f a ++ f b)
    (hplain : ∀ c, isControl c = false → f [c] = Gateway.normalizeChar c)
    (hcontrol : ∀ c, isControl c = true → f [c] = [c]) (modelId : Text) :
    f modelId = Gateway.normalizeModelId modelId ↔ ∀ c ∈ modelId, isControl c = false := by
  constructor
  · intro heq c hc
    by_contra hnot
    have hc' : isControl c = true := by simpa using hnot
    obtain ⟨a, b, rfl⟩ := append_of_mem hc
    have hmem : c ∈ f (a ++ c :: b) := by
      rw [show a ++ c :: b = a ++ ([c] ++ b) from rfl, happend, happend, hcontrol c hc']
      simp
    rw [heq] at hmem
    obtain ⟨_, -, hmem⟩ := mem_flatMap.mp hmem
    have hspecial := Gateway.not_special_normalizeChar hmem
    simp [isSpecial, hc'] at hspecial
  · intro h
    induction modelId with
    | nil => exact hnil
    | cons c rest ih =>
      rw [show c :: rest = [c] ++ rest from rfl, happend, hplain c (h c mem_cons_self),
        ih fun d hd => h d (mem_cons_of_mem c hd)]
      rfl

/-- **The three normalizations.**  What the gateway makes of a nonempty id is one token, and each
of the other two makes the same of an id exactly when it has no control character. -/
theorem normalizers_agree (modelId : Text) :
    (modelId ≠ [] → IsToken (Gateway.normalizeModelId modelId)) ∧
      (Sidecar.normalizeModelId modelId = Gateway.normalizeModelId modelId ↔
        ∀ c ∈ modelId, isControl c = false) ∧
      (Sdk.normalizeModelId modelId = Gateway.normalizeModelId modelId ↔
        ∀ c ∈ modelId, isControl c = false) := by
  refine ⟨Gateway.isToken_normalizeModelId, ?_, ?_⟩
  · refine agrees_iff rfl (fun a b => ?_) (fun c h => (normalize_char h).1)
      (fun c h => (normalize_control h).1) modelId
    simp [Sidecar.normalizeModelId, replaceChar_append]
  · refine agrees_iff rfl (fun a b => ?_) (fun c h => (normalize_char h).2)
      (fun c h => (normalize_control h).2) modelId
    simp [Sdk.normalizeModelId, replaceChar_append]

theorem normalizers_agree_plain :
    IsToken (Gateway.normalizeModelId "BAAI/bge.m3".toList) ∧
      Sdk.normalizeModelId "BAAI/bge.m3".toList = Gateway.normalizeModelId "BAAI/bge.m3".toList :=
  ⟨(normalizers_agree _).1 (by decide), (normalizers_agree _).2.2.mpr (by simp [isControl])⟩

/-- A tab is a control character that only the gateway replaces. -/
theorem normalizers_differ :
    Sidecar.normalizeModelId "a\tb".toList ≠ Gateway.normalizeModelId "a\tb".toList ∧
      Sdk.normalizeModelId "a\tb".toList ≠ Gateway.normalizeModelId "a\tb".toList ∧
      ¬ IsToken (Sdk.normalizeModelId "a\tb".toList) := by decide +kernel

/-! ## Work subjects -/

def tokens (subject : Text) : List Text := subject.splitOn '.'

def joinTokens (parts : List Text) : Text := ['.'].intercalate parts

theorem tokens_joinTokens {parts : List Text} (hne : parts ≠ []) (h : ∀ t ∈ parts, '.' ∉ t) :
    tokens (joinTokens parts) = parts := splitOn_intercalate '.' h hne

/-- The tokens of `work_subject`. -/
def workTokens (pool machineProfile bundle model : Text) : List Text :=
  ["sie".toList, "work".toList, pool, Gateway.normalizeModelId machineProfile,
    Gateway.normalizeModelId bundle, Gateway.normalizeModelId model]

/-- `work_subject` of the gateway. -/
def workSubject (pool machineProfile bundle model : Text) : Text :=
  joinTokens (workTokens pool machineProfile bundle model)

/-- `work_subject_worker` of the gateway, with the token of an execution contract. -/
def versionedSubject (pool machineProfile bundle model workerId version : Text) : Text :=
  joinTokens (workTokens pool machineProfile bundle model ++
    [Gateway.normalizeModelId workerId, version])

def modelTokenIndex : ℕ := 5
def minSubjectParts : ℕ := 6
def directWorkSubjectParts : ℕ := 7
def executionAuthorityV1Token : Text := "execution-authority-v1".toList
def numericalAdmissionV1Token : Text := "numerical-admission-v1".toList

def denormalizeModelId (normalized : Text) : Text :=
  replace pointCode ['.'] (replace slashCode ['/'] normalized)

def extractModelId (subject : Text) : Option Text :=
  if (tokens subject).length < minSubjectParts then none
  else (tokens subject)[modelTokenIndex]?.map denormalizeModelId

def versionedDirectToken (subject : Text) : Option Text :=
  if (tokens subject).length = directWorkSubjectParts + 1 ∧
      (tokens subject)[0]? = some "sie".toList ∧ (tokens subject)[1]? = some "work".toList then
    (tokens subject)[directWorkSubjectParts]?
  else none

def requiresExecutionAuthorityV1 (subject : Text) : Bool :=
  versionedDirectToken subject = some executionAuthorityV1Token ||
    versionedDirectToken subject = some numericalAdmissionV1Token

def executionAuthorityModelMatches (subject modelId : Text) : Bool :=
  !requiresExecutionAuthorityV1 subject || extractModelId subject = some modelId

/-- The ids that come back from their subject.  The code of a character may not merge with an
underscore beside it: besides the texts of the codes themselves, no `_` or `.` stands before a
character whose code starts with an underscore, and no `_dot` before a point. -/
def Reversible (modelId : Text) : Prop :=
  (∀ w ∈ ["__", "_dot_", "_/", "_.", "./", "..", "._", "_dot."], ¬ w.toList <:+: modelId) ∧
    ∀ c ∈ modelId, c = '.' ∨ isSpecial c = false

instance (modelId : Text) : Decidable (Reversible modelId) :=
  haveI : Decidable (∀ c ∈ modelId, c = '.' ∨ isSpecial c = false) := decidableBAll _ _
  inferInstanceAs (Decidable (_ ∧ _))

theorem Reversible.tail {rest : Text} (h : Reversible (c :: rest)) : Reversible rest :=
  ⟨fun w hw hin => h.1 w hw (hin.trans (suffix_cons c rest).isInfix),
    fun d hd => h.2 d (mem_cons_of_mem c hd)⟩

/-- The code of a point alone, as it is after the first replacement of `denormalize_model_id`. -/
def dotCode (c : Char) : Text := if c = '.' then pointCode else [c]

theorem normalizeChar_of_reversible (h : c = '.' ∨ isSpecial c = false) :
    Gateway.normalizeChar c = if c = '/' then slashCode else dotCode c := by
  unfold Gateway.normalizeChar dotCode
  by_cases h₁ : c = '/'
  · simp [h₁]
  by_cases h₂ : c = '.'
  · simp [h₂]
  simp_all [isSpecial]

variable {text : Text}

/-- An underscore at the start of the code comes from one of three characters. -/
theorem head_normalizeModelId (hsafe : ∀ c ∈ text, c = '.' ∨ isSpecial c = false)
    (h : (Gateway.normalizeModelId text).head? = some '_') :
    ∃ c rest, text = c :: rest ∧ (c = '_' ∨ c = '/' ∨ c = '.') := by
  cases text with
  | nil => simp [Gateway.normalizeModelId] at h
  | cons c rest =>
    rw [Gateway.normalizeModelId, flatMap_cons,
      normalizeChar_of_reversible (hsafe c mem_cons_self)] at h
    unfold dotCode at h
    split_ifs at h <;> simp_all

theorem replaceFrom_cons_of_ne {pat into : Text} {d : Char} {pats : Text} (hpat : pat = d :: pats)
    (h : c ≠ d) : replaceFrom pat into 0 (c :: text) = c :: replaceFrom pat into 0 text := by
  subst hpat
  simp [replaceFrom, Ne.symm h]

/-- An underscore that is followed by none stays. -/
theorem replace_slash_underscore (h : text.head? ≠ some '_') :
    replaceFrom slashCode ['/'] 0 ('_' :: text) = '_' :: replaceFrom slashCode ['/'] 0 text := by
  cases text with
  | nil => rfl
  | cons d =>
    have hd : d ≠ '_' := fun heq => h (by rw [heq]; rfl)
    simp [replaceFrom, slashCode, Ne.symm hd]

theorem replace_slash (h : Reversible text) :
    replaceFrom slashCode ['/'] 0 (Gateway.normalizeModelId text) = text.flatMap dotCode := by
  induction text with
  | nil => rfl
  | cons c rest ih =>
    have hsafe := h.tail.2
    -- No underscore follows where two characters may not stand side by side.
    have hnext : (∀ d, d = '_' ∨ d = '/' ∨ d = '.' → ¬ [c, d] <:+: c :: rest) →
        (Gateway.normalizeModelId rest).head? ≠ some '_' := by
      intro hnot hhead
      obtain ⟨d, rest', rfl, hd⟩ := head_normalizeModelId hsafe hhead
      exact hnot d hd (infix_append [] [c, d] rest')
    rw [Gateway.normalizeModelId, flatMap_cons, flatMap_cons,
      normalizeChar_of_reversible (h.2 c mem_cons_self)]
    by_cases hslash : c = '/'
    · subst hslash
      rw [if_pos rfl, ← ih h.tail]
      rfl
    rw [if_neg hslash, ← ih h.tail]
    by_cases hdot : c = '.'
    · subst hdot
      have hend := replace_slash_underscore (hnext fun d hd => by
        rcases hd with rfl | rfl | rfl
        · exact h.1 "._" (by simp)
        · exact h.1 "./" (by simp)
        · exact h.1 ".." (by simp))
      exact congrArg ("_dot".toList ++ ·) hend
    rw [dotCode, if_neg hdot]
    by_cases hunder : c = '_'
    · subst hunder
      exact replace_slash_underscore (hnext fun d hd => by
        rcases hd with rfl | rfl | rfl
        · exact h.1 "__" (by simp)
        · exact h.1 "_/" (by simp)
        · exact h.1 "_." (by simp))
    · exact replaceFrom_cons_of_ne rfl hunder

theorem of_cons_prefix_dotCode {pat : Text} (hc : c ≠ '_') (h : c :: pat <+: text.flatMap dotCode) :
    ∃ rest, text = c :: rest ∧ pat <+: rest.flatMap dotCode := by
  cases text with
  | nil => simp at h
  | cons d rest =>
    rw [flatMap_cons, dotCode] at h
    split_ifs at h
    · exact absurd (cons_prefix_cons.mp h).1 hc
    · obtain ⟨rfl, hrest⟩ := cons_prefix_cons.mp h
      exact ⟨rest, rfl, hrest⟩

/-- `dot_` at the start of the text with coded points comes from two texts. -/
theorem of_dot_prefix_dotCode (h : ['d', 'o', 't', '_'] <+: text.flatMap dotCode) :
    ∃ rest, text = ['d', 'o', 't', '_'] ++ rest ∨ text = ['d', 'o', 't', '.'] ++ rest := by
  obtain ⟨r₁, rfl, h₁⟩ := of_cons_prefix_dotCode (by decide) h
  obtain ⟨r₂, rfl, h₂⟩ := of_cons_prefix_dotCode (by decide) h₁
  obtain ⟨r₃, rfl, h₃⟩ := of_cons_prefix_dotCode (by decide) h₂
  cases r₃ with
  | nil => simp at h₃
  | cons d rest =>
    rw [flatMap_cons, dotCode] at h₃
    split_ifs at h₃ with hd
    · exact ⟨rest, .inr (by rw [hd]; rfl)⟩
    · exact ⟨rest, .inl (by rw [← (cons_prefix_cons.mp h₃).1]; rfl)⟩

theorem replace_dot (h : Reversible text) :
    replaceFrom pointCode ['.'] 0 (text.flatMap dotCode) = text := by
  induction text with
  | nil => rfl
  | cons c rest ih =>
    rw [flatMap_cons, dotCode]
    split_ifs with hdot
    · subst hdot
      exact congrArg ('.' :: ·) (ih h.tail)
    by_cases hunder : c = '_'
    · subst hunder
      have hnot : ¬ pointCode <+: '_' :: rest.flatMap dotCode := by
        intro hpre
        obtain ⟨rest', rfl | rfl⟩ := of_dot_prefix_dotCode (cons_prefix_cons.mp hpre).2
        · exact h.1 "_dot_" (by simp) (infix_append [] pointCode rest')
        · exact h.1 "_dot." (by simp) (infix_append [] ['_', 'd', 'o', 't', '.'] rest')
      rw [← isPrefixOf_iff_prefix] at hnot
      rw [singleton_append, replaceFrom, if_neg hnot, ih h.tail]
    · rw [singleton_append, replaceFrom_cons_of_ne (rfl : pointCode = _) hunder, ih h.tail]

theorem denormalize_normalize {modelId : Text} (h : Reversible modelId) :
    denormalizeModelId (Gateway.normalizeModelId modelId) = modelId := by
  rw [denormalizeModelId, replace, replace, replace_slash h, replace_dot h]

theorem dot_notMem_normalizeModelId (modelId : Text) : '.' ∉ Gateway.normalizeModelId modelId := by
  intro hmem
  obtain ⟨c, -, hd⟩ := mem_flatMap.mp hmem
  cases Gateway.not_special_normalizeChar hd

section
variable {pool machineProfile bundle model : Text}

theorem tokens_workSubject (hpool : '.' ∉ pool) :
    tokens (workSubject pool machineProfile bundle model) =
      workTokens pool machineProfile bundle model := by
  refine tokens_joinTokens (by simp [workTokens]) ?_
  simp [workTokens, hpool, dot_notMem_normalizeModelId]

theorem tokens_versionedSubject {workerId version : Text} (hpool : '.' ∉ pool)
    (hversion : '.' ∉ version) :
    tokens (versionedSubject pool machineProfile bundle model workerId version) =
      workTokens pool machineProfile bundle model ++
        [Gateway.normalizeModelId workerId, version] := by
  refine tokens_joinTokens (by simp [workTokens]) ?_
  simp [workTokens, hpool, hversion, dot_notMem_normalizeModelId]

/-- **A model id comes back from its subject**, if it is reversible and the pool is one token;
so no two such ids share a subject, and the check of an execution contract lets exactly the
published id through. -/
theorem modelId_roundTrip (machineProfile bundle : Text) (hpool : '.' ∉ pool)
    (h : Reversible model) :
    extractModelId (workSubject pool machineProfile bundle model) = some model ∧
      (∀ other, Reversible other → workSubject pool machineProfile bundle other =
          workSubject pool machineProfile bundle model → other = model) ∧
      ∀ workerId, ∀ version ∈ [executionAuthorityV1Token, numericalAdmissionV1Token],
        ∀ other, executionAuthorityModelMatches
          (versionedSubject pool machineProfile bundle model workerId version) other = true ↔
            other = model := by
  have hextract : ∀ {m : Text}, Reversible m →
      extractModelId (workSubject pool machineProfile bundle m) = some m := by
    intro m hm
    rw [extractModelId, tokens_workSubject hpool]
    simp [workTokens, minSubjectParts, modelTokenIndex, denormalize_normalize hm]
  refine ⟨hextract h, fun other hother heq => ?_, fun workerId version hversion other => ?_⟩
  · have hsame := hextract hother
    rw [heq, hextract h] at hsame
    exact (Option.some.inj hsame).symm
  · have hdot : '.' ∉ version := by
      have hall : ∀ v ∈ [executionAuthorityV1Token, numericalAdmissionV1Token], '.' ∉ v := by
        decide
      exact hall version hversion
    have htokens : tokens (versionedSubject pool machineProfile bundle model workerId version) =
        _ := tokens_versionedSubject hpool hdot
    have hrequires : requiresExecutionAuthorityV1
        (versionedSubject pool machineProfile bundle model workerId version) = true := by
      simp only [requiresExecutionAuthorityV1, versionedDirectToken, htokens, workTokens]
      simpa [directWorkSubjectParts] using hversion
    have hid : extractModelId
        (versionedSubject pool machineProfile bundle model workerId version) = some model := by
      rw [extractModelId, htokens]
      simp [workTokens, minSubjectParts, modelTokenIndex, denormalize_normalize h]
    simp [executionAuthorityModelMatches, hrequires, hid, eq_comm]

end

theorem modelId_roundTrip_plain :
    extractModelId (workSubject "default".toList "l4".toList "sglang".toList
      "BAAI/bge_m3.v1".toList) = some "BAAI/bge_m3.v1".toList :=
  (modelId_roundTrip _ _ (by decide +kernel) (by decide +kernel)).1

/-- The code of the slash merges with the underscore before it, so that two ids share a
subject; and a pool of two tokens moves the model's token. -/
theorem modelId_lost :
    extractModelId (workSubject "p".toList "m".toList "b".toList "a_/b".toList) =
        some "a/_b".toList ∧ workSubject "p".toList "m".toList "b".toList "a_/b".toList =
        workSubject "p".toList "m".toList "b".toList "a/_b".toList ∧
      extractModelId (workSubject "p.q".toList "m".toList "b".toList "a".toList) =
        some "b".toList := by decide +kernel

/-! ## The overlap of two filters -/

def star : Text := ['*']
def gt : Text := ['>']

/-- Two tokens that one token can match both. -/
def agree (a b : Text) : Bool := a = star || b = star || a = b

/-- `subjects_overlap` on the tokens. -/
def tokensOverlap (a b : List Text) : Bool :=
  let aFixed := if a.getLast? = some gt then a.length - 1 else a.length
  let bFixed := if b.getLast? = some gt then b.length - 1 else b.length
  let common := min aFixed bFixed
  if a.isEmpty || b.isEmpty then false
  else if ((a.take common).zip (b.take common)).all fun (x, y) => agree x y then
    if a.getLast? = some gt then b.getLast? = some gt || a.length ≤ b.length
    else if b.getLast? = some gt then b.length ≤ a.length
    else a.length = b.length
  else false

def subjectsOverlap (a b : Text) : Bool := tokensOverlap (tokens a) (tokens b)

/-- What a filter stands for, token by token. -/
inductive Matches : List Text → List Text → Prop
  | nil : Matches [] []
  | rest {s : List Text} (h : s ≠ []) : Matches [gt] s
  | cons {p t : Text} {ps s : List Text} (h : p = star ∨ p = t) (hrest : Matches ps s) :
      Matches (p :: ps) (t :: s)

/-- The tokens of a filter: none is empty, and `>` is only the last. -/
def WellFormed (filter : List Text) : Prop :=
  filter ≠ [] ∧ (∀ t ∈ filter, t ≠ [] ∧ '.' ∉ t) ∧ gt ∉ filter.dropLast

/-- The tokens of a subject without wildcards. -/
def Concrete (s : List Text) : Prop :=
  s ≠ [] ∧ ∀ t ∈ s, t ≠ [] ∧ '.' ∉ t ∧ t ≠ star ∧ t ≠ gt

theorem Concrete.ne_nil_cons {t : Text} {s : List Text} (h : t ≠ [] ∧ '.' ∉ t ∧ t ≠ star ∧ t ≠ gt)
    (hs : s = [] ∨ Concrete s) : Concrete (t :: s) := by
  refine ⟨by simp, fun u hu => ?_⟩
  rcases mem_cons.mp hu with rfl | hu
  · exact h
  · rcases hs with rfl | hs
    · cases hu
    · exact hs.2 u hu

theorem WellFormed.head_ne_gt {t u : Text} {ts : List Text} (h : WellFormed (t :: u :: ts)) :
    t ≠ gt := by
  rintro rfl
  exact h.2.2 (by simp)

theorem WellFormed.tail {t u : Text} {ts : List Text} (h : WellFormed (t :: u :: ts)) :
    WellFormed (u :: ts) :=
  ⟨by simp, fun v hv => h.2.1 v (mem_cons_of_mem t hv), fun hmem => h.2.2 (by
    rw [dropLast_cons_of_ne_nil (by simp)]
    exact mem_cons_of_mem t hmem)⟩

/-- A token that the two tokens match. -/
def fill (a b : Text) : Text := if a = star ∨ a = gt then (if b = star ∨ b = gt then ['x'] else b)
  else a

theorem concrete_fill {a b : Text} (ha : a ≠ [] ∧ '.' ∉ a) (hb : b ≠ [] ∧ '.' ∉ b) :
    fill a b ≠ [] ∧ '.' ∉ fill a b ∧ fill a b ≠ star ∧ fill a b ≠ gt := by
  unfold fill
  split_ifs with h₁ h₂
  · decide
  · exact ⟨hb.1, hb.2, fun h => h₂ (.inl h), fun h => h₂ (.inr h)⟩
  · exact ⟨ha.1, ha.2, fun h => h₁ (.inl h), fun h => h₁ (.inr h)⟩

theorem agree_iff {a b : Text} (ha : a ≠ gt) (hb : b ≠ gt) (ha' : a ≠ [] ∧ '.' ∉ a)
    (hb' : b ≠ [] ∧ '.' ∉ b) :
    agree a b = true ↔ ∃ t, (t ≠ [] ∧ '.' ∉ t ∧ t ≠ star ∧ t ≠ gt) ∧
      (a = star ∨ a = t) ∧ (b = star ∨ b = t) := by
  constructor
  · intro h
    refine ⟨fill a b, concrete_fill ha' hb', ?_⟩
    simp [agree] at h
    by_cases h₁ : a = star <;> by_cases h₂ : b = star <;> simp_all [fill]
  · rintro ⟨t, -, h₁, h₂⟩
    rcases h₁ with rfl | rfl <;> rcases h₂ with rfl | rfl <;> simp [agree]

/-- Every filter stands for some subject. -/
theorem WellFormed.exists_matches {a : List Text} (h : WellFormed a) :
    ∃ s, Concrete s ∧ Matches a s := by
  induction a with
  | nil => exact absurd rfl h.1
  | cons t ts ih =>
    have ht := concrete_fill (h.2.1 t mem_cons_self) (h.2.1 t mem_cons_self)
    cases ts with
    | nil =>
      refine ⟨[fill t t], .ne_nil_cons ht (.inl rfl), ?_⟩
      by_cases hgt : t = gt
      · rw [hgt]
        exact .rest (by simp)
      · refine .cons ?_ .nil
        by_cases hstar : t = star <;> simp [fill, hstar, hgt]
    | cons u us =>
      obtain ⟨s, hs, hmatch⟩ := ih h.tail
      refine ⟨fill t t :: s, .ne_nil_cons ht (.inr hs), .cons ?_ hmatch⟩
      by_cases hstar : t = star <;> simp [fill, hstar, h.head_ne_gt]

theorem tokensOverlap_cons_cons {a b : Text} {as bs : List Text} (ha : as ≠ []) (hb : bs ≠ []) :
    tokensOverlap (a :: as) (b :: bs) = (agree a b && tokensOverlap as bs) := by
  obtain ⟨u, us, rfl⟩ := exists_cons_of_ne_nil ha
  obtain ⟨v, vs, rfl⟩ := exists_cons_of_ne_nil hb
  simp only [tokensOverlap, getLast?_cons_cons]
  by_cases h₁ : (u :: us).getLast? = some gt <;> by_cases h₂ : (v :: vs).getLast? = some gt
  all_goals
    simp only [h₁, h₂, if_true, if_false, length_cons, Nat.add_sub_cancel,
      Nat.add_min_add_right, take_succ_cons, zip_cons_cons, all_cons, isEmpty_cons]
    cases agree a b <;> simp

theorem tokensOverlap_gt_left {b : List Text} (hb : b ≠ []) : tokensOverlap [gt] b = true := by
  simp [tokensOverlap, hb, Nat.one_le_iff_ne_zero]

theorem tokensOverlap_gt_right {a : List Text} (ha : a ≠ []) : tokensOverlap a [gt] = true := by
  simp [tokensOverlap, ha, Nat.one_le_iff_ne_zero]

/-- Filters of one token and of more than one. -/
theorem tokensOverlap_singleton {x y v : Text} {vs : List Text} (hx : x ≠ gt) :
    tokensOverlap [x] (y :: v :: vs) = false ∧ tokensOverlap (y :: v :: vs) [x] = false := by
  simp only [tokensOverlap, getLast?_singleton, getLast?_cons_cons, Option.some.injEq, hx]
  constructor <;> split_ifs <;> simp_all

theorem Matches.ne_nil {v : Text} {vs s : List Text} (h : Matches (v :: vs) s) : s ≠ [] := by
  cases h with
  | rest hne => exact hne
  | cons => simp

theorem not_matches_singleton {x y v : Text} {vs s : List Text} (hx : x ≠ gt)
    (h : Matches [x] s) (h' : Matches (y :: v :: vs) s) : False := by
  cases h with
  | rest => exact hx rfl
  | cons _ hnil =>
    cases hnil with
    | nil =>
      cases h' with
      | cons _ hrest => exact hrest.ne_nil rfl

/-- The tokens overlap when some subject is matched by both. -/
theorem tokensOverlap_iff {a b : List Text} (ha : WellFormed a) (hb : WellFormed b) :
    tokensOverlap a b = true ↔ ∃ s, Concrete s ∧ Matches a s ∧ Matches b s := by
  induction a generalizing b with
  | nil => exact absurd rfl ha.1
  | cons x as ih =>
    obtain ⟨y, bs, rfl⟩ := exists_cons_of_ne_nil hb.1
    by_cases hx : x :: as = [gt]
    · rw [hx, tokensOverlap_gt_left (by simp)]
      obtain ⟨s, hs, hmatch⟩ := hb.exists_matches
      exact iff_of_true rfl ⟨s, hs, .rest hs.1, hmatch⟩
    by_cases hy : y :: bs = [gt]
    · rw [hy, tokensOverlap_gt_right (by simp)]
      obtain ⟨s, hs, hmatch⟩ := ha.exists_matches
      exact iff_of_true rfl ⟨s, hs, hmatch, .rest hs.1⟩
    have hx' : x ≠ gt := by
      cases as with
      | nil => simpa using hx
      | cons => exact ha.head_ne_gt
    have hy' : y ≠ gt := by
      cases bs with
      | nil => simpa using hy
      | cons => exact hb.head_ne_gt
    have hagree := agree_iff hx' hy' (ha.2.1 x mem_cons_self) (hb.2.1 y mem_cons_self)
    cases as with
    | nil =>
      cases bs with
      | nil =>
        have hone : tokensOverlap [x] [y] = agree x y := by simp [tokensOverlap, hx', hy']
        rw [hone, hagree]
        constructor
        · rintro ⟨t, ht, h₁, h₂⟩
          exact ⟨[t], .ne_nil_cons ht (.inl rfl), .cons h₁ .nil, .cons h₂ .nil⟩
        · rintro ⟨s, hs, h₁, h₂⟩
          cases h₁ with
          | rest => exact absurd rfl hx'
          | @cons _ t _ _ h₁ =>
            cases h₂ with
            | rest => exact absurd rfl hy'
            | cons h₂ => exact ⟨t, hs.2 t mem_cons_self, h₁, h₂⟩
      | cons v vs =>
        rw [(tokensOverlap_singleton hx').1]
        exact iff_of_false (by simp) fun ⟨s, _, h₁, h₂⟩ => not_matches_singleton hx' h₁ h₂
    | cons u us =>
      cases bs with
      | nil =>
        rw [(tokensOverlap_singleton hy').2]
        exact iff_of_false (by simp) fun ⟨s, _, h₁, h₂⟩ => not_matches_singleton hy' h₂ h₁
      | cons v vs =>
        rw [tokensOverlap_cons_cons (by simp) (by simp), Bool.and_eq_true, hagree,
          ih ha.tail hb.tail]
        constructor
        · rintro ⟨⟨t, ht, h₁, h₂⟩, s, hs, h₁', h₂'⟩
          exact ⟨t :: s, .ne_nil_cons ht (.inr hs), .cons h₁ h₁', .cons h₂ h₂'⟩
        · rintro ⟨s, hs, h₁, h₂⟩
          cases h₁ with
          | @cons _ t _ s h₁ h₁' =>
            cases h₂ with
            | cons h₂ h₂' =>
              exact ⟨⟨t, hs.2 t mem_cons_self, h₁, h₂⟩, s,
                ⟨h₁'.ne_nil, fun u hu => hs.2 u (mem_cons_of_mem t hu)⟩, h₁', h₂'⟩

/-- **`subjects_overlap` is exact.**  Two filters overlap when some subject without wildcards
is matched by both; so the order of the two does not matter. -/
theorem subjectsOverlap_exact (a b : Text) (ha : WellFormed (tokens a))
    (hb : WellFormed (tokens b)) :
    (subjectsOverlap a b = true ↔
      ∃ s, Concrete (tokens s) ∧ Matches (tokens a) (tokens s) ∧ Matches (tokens b) (tokens s)) ∧
    subjectsOverlap a b = subjectsOverlap b a := by
  constructor
  · rw [subjectsOverlap, tokensOverlap_iff ha hb]
    constructor
    · rintro ⟨s, hs, h₁, h₂⟩
      have htokens := tokens_joinTokens hs.1 fun t ht => (hs.2 t ht).2.1
      refine ⟨joinTokens s, ?_⟩
      rw [htokens]
      exact ⟨hs, h₁, h₂⟩
    · rintro ⟨s, hs⟩
      exact ⟨tokens s, hs⟩
  · rw [Bool.eq_iff_iff, subjectsOverlap, subjectsOverlap, tokensOverlap_iff ha hb,
      tokensOverlap_iff hb ha]
    exact exists_congr fun s => and_congr_right fun _ => and_comm

/-- `sie.a.b` is matched by both filters. -/
theorem subjectsOverlap_exact_gt :
    subjectsOverlap "sie.*.b".toList "sie.>".toList = true ∧
      subjectsOverlap "sie.>".toList "sie.*.b".toList = true := by
  have ha : tokens "sie.*.b".toList = ["sie".toList, star, "b".toList] := by decide +kernel
  have hb : tokens "sie.>".toList = ["sie".toList, gt] := by decide +kernel
  have hs : tokens "sie.a.b".toList = ["sie".toList, "a".toList, "b".toList] := by decide +kernel
  have hexact := subjectsOverlap_exact "sie.*.b".toList "sie.>".toList
    (by rw [ha]; exact ⟨by decide, by decide, by decide⟩)
    (by rw [hb]; exact ⟨by decide, by decide, by decide⟩)
  have htrue : subjectsOverlap "sie.*.b".toList "sie.>".toList = true := by
    refine hexact.1.mpr ⟨"sie.a.b".toList, ?_⟩
    rw [ha, hb, hs]
    exact ⟨⟨by decide, by decide⟩, .cons (.inr rfl) (.cons (.inl rfl) (.cons (.inr rfl) .nil)),
      .cons (.inr rfl) (.rest (by decide))⟩
  exact ⟨htrue, hexact.2 ▸ htrue⟩

end Sie.Wire
