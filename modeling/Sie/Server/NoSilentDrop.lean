import Sie.Server.Streaming

/-!
# No generated content is dropped silently

All that the adapter produced is on the queue or pending: `Driver.shown` and
`Driver.logged` put the two together, and every part of a turn keeps them (`Keeps`).  A
flush leaves no text and no reasoning pending, but logprobs go out only with text
(`Flushed`); what a turn can do as a whole is `Turned`, and `Carried` says what it takes
for nothing to be left behind at the end.
-/

namespace Sie.Server

open Sie.Lib List Envelope

variable {Λ : Type}

/-- A character of the reasoning or of the text, or a tool-call delta. -/
inductive Item
  | reasoning (c : Char)
  | text (c : Char)
  | toolCall (delta : ToolCallDelta)
  deriving DecidableEq

def reasoningItems (s : String) : List Item := s.toList.map .reasoning

def textItems (s : String) : List Item := s.toList.map .text

@[simp] theorem reasoningItems_empty : reasoningItems "" = [] := rfl

@[simp] theorem textItems_empty : textItems "" = [] := rfl

@[simp] theorem reasoningItems_append (a b : String) :
    reasoningItems (a ++ b) = reasoningItems a ++ reasoningItems b := by simp [reasoningItems]

@[simp] theorem textItems_append (a b : String) :
    textItems (a ++ b) = textItems a ++ textItems b := by simp [textItems]

def Envelope.items (e : Envelope Λ) : List Item :=
  reasoningItems e.reasoningDelta ++ textItems e.textDelta ++ e.toolCallDelta.toList.map .toolCall

def GenerationChunk.items (chunk : GenerationChunk Λ) : List Item :=
  reasoningItems chunk.reasoningDelta ++ textItems chunk.textDelta ++
    chunk.toolCallDelta.toList.map .toolCall

/-- What the adapter produced in a turn. -/
def Turn.items : Turn Λ → List Item
  | .chunk c _ => c.items
  | _ => []

def Turn.logprobs : Turn Λ → List Λ
  | .chunk c _ => c.logprobs
  | _ => []

/-- An ordinary terminal: not cancelled, not an error. -/
def Envelope.ordinary (e : Envelope Λ) : Bool :=
  e.done && e.finishReason ≠ some .cancelled && e.finishReason ≠ some .error && e.error.isNone

def Envelope.errorCode (e : Envelope Λ) : Option String := e.error.map Prod.fst

namespace Driver

def pendingItems (d : Driver Λ) : List Item :=
  reasoningItems (String.join d.pendingReasoning) ++ textItems (String.join d.pendingText)

/-- What was put on the queue, and what is pending. -/
def shown (d : Driver Λ) : List Item := d.queue.flatMap items ++ d.pendingItems

def logged (d : Driver Λ) : List Λ := d.queue.flatMap logprobs ++ d.pendingLogprobs

/-- The loop is running, and the queue is numbered without gaps. -/
structure Live (d : Driver Λ) : Prop where
  running : d.running = true
  seqs : d.queue.map Envelope.seq = range d.queue.length
  next : d.seq = d.queue.length
  not_done : ∀ e ∈ d.queue, e.done = false
  terminalSent : d.terminalSent = false
  transportFailurePublished : d.transportFailurePublished = false

/-- A part of a turn that loses nothing. -/
structure Keeps (d d' : Driver Λ) : Prop where
  live : d.Live → d'.Live
  grown : d.queue <+: d'.queue
  shown : d'.shown = d.shown
  logged : d'.logged = d.logged

theorem Keeps.refl (d : Driver Λ) : Keeps d d := ⟨id, prefix_rfl, rfl, rfl⟩

variable {d d' d'' : Driver Λ} {e : Envelope Λ}

theorem Keeps.trans (h : Keeps d d') (h' : Keeps d' d'') : Keeps d d'' :=
  ⟨fun hd => h'.live (h.live hd), h.grown.trans h'.grown, h'.shown.trans h.shown,
    h'.logged.trans h.logged⟩

/-- The loop goes on, with a longer queue. -/
structure Onward (d d' : Driver Λ) : Prop where
  live : d'.Live
  grown : d.queue <+: d'.queue

theorem Keeps.onward (h : Keeps d d') (hd : d.Live) : Onward d d' :=
  ⟨h.live hd, h.grown⟩

theorem Onward.keeps (h : Onward d d') (h' : Keeps d' d'') : Onward d d'' :=
  ⟨h'.live h.live, h.grown.trans h'.grown⟩

/-- A put happens or not. -/
theorem put_cases (d : Driver Λ) (e : Envelope Λ) :
    d.put e = ({ d with queue := d.queue ++ [e], puts := d.puts.tail }, true) ∨
      d.put e = ({ d with puts := d.puts.tail }, false) := by
  unfold put
  split
  · exact .inl rfl
  · exact .inr rfl

theorem putNext_cases (d : Driver Λ) (e : Envelope Λ) :
    d.putNext e =
        ({ d with seq := d.seq + 1, queue := d.queue ++ [e], puts := d.puts.tail }, true) ∨
      d.putNext e = ({ d with puts := d.puts.tail }, false) := by
  unfold putNext
  obtain hput | hput := d.put_cases e
  · exact .inl (by rw [hput])
  · exact .inr (by rw [hput])

theorem seqs_concat {queue : List (Envelope Λ)}
    (h : queue.map Envelope.seq = range queue.length) (hseq : e.seq = queue.length) :
    (queue ++ [e]).map Envelope.seq = range (queue ++ [e]).length := by
  simp [h, hseq, range_succ]

/-- An envelope that is not the last one is put with the next number. -/
theorem Live.took (h : d.Live) (hseq : e.seq = d.seq) (hdone : e.done = false) :
    { d with seq := d.seq + 1, queue := d.queue ++ [e], puts := d.puts.tail }.Live := by
  refine ⟨h.running, seqs_concat h.seqs (hseq.trans h.next), ?_, ?_, h.terminalSent,
    h.transportFailurePublished⟩
  · simp [h.next]
  · intro e' he'
    rcases mem_append.mp he' with he' | he'
    · exact h.not_done e' he'
    · rwa [mem_singleton.mp he']

theorem Keeps.missed : Keeps d { d with puts := d.puts.tail } :=
  ⟨fun h => { h with }, prefix_rfl, rfl, rfl⟩

theorem flushReasoning_spec (d : Driver Λ) :
    Keeps d d.flushReasoning.1 ∧ d.flushReasoning.1.pendingText = d.pendingText ∧
      d.flushReasoning.1.pendingLogprobs = d.pendingLogprobs ∧
      (d.flushReasoning.2 = true → d.flushReasoning.1.pendingReasoning = []) := by
  unfold flushReasoning
  obtain hput | hput := d.putNext_cases
    { seq := d.seq
      choiceIndex := d.pendingReasoningChoice
      reasoningDelta := String.join d.pendingReasoning }
  · simp only [hput]
    refine ⟨⟨fun h => { h.took rfl rfl with }, prefix_append _ _, ?_, ?_⟩,
      trivial, trivial, fun _ => trivial⟩
    · simp [shown, pendingItems, Envelope.items]
    · simp [logged]
  · simp only [hput]
    exact ⟨.missed, trivial, trivial, by simp⟩

theorem flushText_spec (d : Driver Λ) (hreasoning : d.pendingReasoning = []) :
    Keeps d d.flushText.1 ∧ d.flushText.1.pendingReasoning = [] ∧ (d.flushText.2 = true →
        d.flushText.1.pendingText = [] ∧ d.flushText.1.pendingLogprobs = []) := by
  unfold flushText
  obtain hput | hput := d.putNext_cases
    { seq := d.seq
      textDelta := String.join d.pendingText
      isFirst := String.join d.pendingText ≠ "" && !d.firstTextPublished
      logprobs := d.pendingLogprobs }
  · simp only [hput]
    refine ⟨⟨fun h => { h.took rfl rfl with }, prefix_append _ _, ?_, ?_⟩,
      hreasoning, fun _ => ⟨trivial, trivial⟩⟩
    · simp [shown, pendingItems, Envelope.items, hreasoning]
    · simp [logged]
  · simp only [hput]
    exact ⟨.missed, hreasoning, by simp⟩

/-- What a flush leaves behind. -/
structure Flushed (d d' : Driver Λ) : Prop where
  text : d'.pendingText = []
  reasoning : d'.pendingReasoning = []
  /-- Logprobs stay behind when there was no text to flush them with. -/
  logprobs : d'.pendingLogprobs = [] ∨ d'.pendingLogprobs = d.pendingLogprobs ∧ d.pendingText = []

theorem flushRest_spec (d : Driver Λ) (progress : Bool) (hreasoning : d.pendingReasoning = []) :
    Keeps d (d.flushRest progress).1 ∧
      ((d.flushRest progress).2 = true → Flushed d (d.flushRest progress).1) := by
  unfold flushRest
  split_ifs with hnone
  · simp at hnone
    exact ⟨.refl d, fun _ => ⟨hnone.1, hreasoning, .inr ⟨rfl, hnone.1⟩⟩⟩
  · obtain ⟨hkeeps, hnone, hclears⟩ := d.flushText_spec hreasoning
    exact ⟨hkeeps, fun hok => ⟨(hclears hok).1, hnone, .inl (hclears hok).2⟩⟩

/-- **A flush** loses nothing, and leaves no text and no reasoning pending. -/
theorem flushPending_spec (d : Driver Λ) (progress : Bool) :
    Keeps d (d.flushPending progress).1 ∧
      ((d.flushPending progress).2 = true → Flushed d (d.flushPending progress).1) := by
  unfold flushPending
  split_ifs with hnone
  · exact d.flushRest_spec progress (List.isEmpty_iff.mp hnone)
  obtain ⟨hkeeps, htext, hlogprobs, hclears⟩ := d.flushReasoning_spec
  generalize d.flushReasoning = r at hkeeps htext hlogprobs hclears
  obtain ⟨d₁, ok⟩ := r
  cases ok with
  | false => exact ⟨hkeeps, by simp⟩
  | true =>
    have hreasoning := hclears rfl
    dsimp only at *
    split_ifs with hnone
    · rw [List.isEmpty_iff] at hnone
      refine ⟨hkeeps.trans ⟨fun h => { h with }, prefix_rfl, rfl, rfl⟩, ?_⟩
      exact fun _ => ⟨hnone, hreasoning, .inr ⟨hlogprobs, htext ▸ hnone⟩⟩
    obtain ⟨hkeeps', hflushed⟩ := d₁.flushRest_spec progress hreasoning
    refine ⟨hkeeps.trans hkeeps', fun hok => ?_⟩
    obtain ⟨htext', hreasoning', hlogprobs'⟩ := hflushed hok
    exact ⟨htext', hreasoning', htext ▸ hlogprobs ▸ hlogprobs'⟩

/-- What pending the reasoning of a chunk leaves behind. -/
structure Pended (d : Driver Λ) (chunk : GenerationChunk Λ) (d' : Driver Λ) : Prop where
  shown : d'.shown = d.shown ++ reasoningItems chunk.reasoningDelta
  logged : d'.logged = d.logged
  pending : d' = d ∧ chunk.reasoningDelta = "" ∨
    chunk.reasoningDelta ≠ "" ∧ d'.pendingText = [] ∧
      (d'.pendingLogprobs = [] ∨ d'.pendingLogprobs = d.pendingLogprobs ∧ d.pendingText = [])

section

variable (d) (chunk : GenerationChunk Λ)

theorem pendReasoning_spec (hchunk : chunk.reasoningDelta ≠ "") :
    (d.Live → Onward d (d.pendReasoning chunk).1) ∧
      ((d.pendReasoning chunk).2 = true → Pended d chunk (d.pendReasoning chunk).1) := by
  have hfirst : ∃ d₁ ok, (if !d.pendingText.isEmpty || (!d.pendingReasoning.isEmpty &&
        chunk.choiceIndex ≠ d.pendingReasoningChoice) then d.flushPending false else (d, true)) =
          (d₁, ok) ∧ Keeps d d₁ ∧ (ok = true → d₁.pendingText = [] ∧ (d₁.pendingLogprobs = [] ∨
              d₁.pendingLogprobs = d.pendingLogprobs ∧ d.pendingText = [])) := by
    split_ifs with hnone
    · obtain ⟨hkeeps, hflushed⟩ := d.flushPending_spec false
      exact ⟨_, _, rfl, hkeeps, fun hok => ⟨(hflushed hok).text, (hflushed hok).logprobs⟩⟩
    have htext : d.pendingText = [] := by
      simp only [Bool.or_eq_true, not_or, Bool.not_eq_true', Bool.not_eq_false] at hnone
      exact List.isEmpty_iff.mp hnone.1
    exact ⟨d, true, rfl, .refl d, fun _ => ⟨htext, .inr ⟨rfl, htext⟩⟩⟩
  obtain ⟨d₁, ok, hr, hkeeps, hfirst⟩ := hfirst
  unfold pendReasoning
  simp only [hr]
  cases ok with
  | false => exact ⟨hkeeps.onward, by simp⟩
  | true =>
    obtain ⟨htext, hlogprobs⟩ := hfirst rfl
    refine ⟨fun h => ⟨{ hkeeps.live h with }, hkeeps.grown⟩,
      fun _ => ⟨?_, ?_, ?_⟩⟩
    · rw [← hkeeps.shown]
      simp [shown, pendingItems, htext]
    · exact hkeeps.logged
    · exact .inr ⟨hchunk, htext, hlogprobs⟩

theorem noteReasoning_spec :
    (d.Live → Onward d (d.noteReasoning chunk).1) ∧
      ((d.noteReasoning chunk).2 = true → Pended d chunk (d.noteReasoning chunk).1) := by
  unfold noteReasoning
  split
  next hnone => exact ⟨(Keeps.refl d).onward, fun _ => ⟨by simp [hnone], rfl, .inl ⟨rfl, hnone⟩⟩⟩
  next hsome => exact d.pendReasoning_spec chunk hsome

theorem noteText_spec :
    (d.Live → (d.noteText chunk).Live) ∧
      (d.noteText chunk).shown = d.shown ++ textItems chunk.textDelta ∧
      (d.noteText chunk).logged = d.logged ++ chunk.logprobs := by
  refine ⟨fun h => { h with }, ?_, ?_⟩
  · by_cases hnone : chunk.textDelta = "" <;>
      simp [shown, pendingItems, noteText, hnone]
  · simp [logged, noteText]

end

end Driver

/-! ## One turn -/

/-- What a turn must meet to lose nothing: a tool-call delta comes alone, and no logprobs
are left without text to go out with when the stream ends. -/
def Carried (d : Driver Λ) : Turn Λ → Prop
  | .chunk c _ =>
    (c.toolCallDelta.isSome = true →
      c.done = false ∧ c.textDelta = "" ∧ c.reasoningDelta = "" ∧ c.logprobs = []) ∧
    (c.done = true →
      (d.pendingLogprobs ≠ [] → d.pendingText ≠ [] ∨ c.textDelta ≠ "") ∧
      (c.logprobs ≠ [] → c.textDelta ≠ "" ∨ (c.reasoningDelta = "" ∧ d.pendingText ≠ [])) ∧
      c.errorCode ≠ some "transport_failure")
  | .exhausted => d.pendingLogprobs ≠ [] → d.pendingText ≠ []
  | .raised errorCode _ => errorCode ≠ "transport_failure"
  | .cancelled => True

instance [DecidableEq Λ] (d : Driver Λ) (t : Turn Λ) : Decidable (Carried d t) := by
  unfold Carried
  split <;> infer_instance

/-- What a turn can do. -/
inductive Turned (d : Driver Λ) (t : Turn Λ) : Driver Λ → Prop
  | goesOn {d' : Driver Λ} (honward : d.Onward d')
      (hgrows : Carried d t → d'.shown = d.shown ++ t.items ∧ d'.logged = d.logged ++ t.logprobs) :
      Turned d t d'
  /-- The loop is left without a terminal. -/
  | silent {d₁ d' : Driver Λ} (honward : d.Onward d₁) (hrunning : d'.running = false)
      (hqueue : d'.queue = d₁.queue) (hsent : d'.terminalSent = false) : Turned d t d'
  | ends {d₁ d' : Driver Λ} {e : Envelope Λ} (honward : d.Onward d₁) (hrunning : d'.running = false)
      (hqueue : d'.queue = d₁.queue ++ [e]) (hseq : e.seq = d₁.seq) (hdone : e.done = true)
      (hordinary : Carried d t → e.ordinary = true →
        d₁.queue.flatMap Envelope.items = d.shown ++ t.items ∧
          d₁.queue.flatMap Envelope.logprobs = d.logged ++ t.logprobs)
      (hcode : Carried d t → d'.transportFailurePublished = false →
        e.errorCode ≠ some "transport_failure") :
      Turned d t d'

namespace Driver

variable {d d₁ : Driver Λ} {t : Turn Λ} {c : GenerationChunk Λ} {r : Driver Λ × Bool}
  {f : Driver Λ → Driver Λ} {d' : Driver Λ}

theorem Onward.failTransport (h : Onward d d₁) : Turned d t d₁.failTransport := by
  unfold Driver.failTransport
  obtain hput | hput := d₁.put_cases (transportFailureEnvelope d₁.seq)
  · rw [hput]
    refine .ends (e := transportFailureEnvelope d₁.seq) h rfl rfl rfl rfl ?_ ?_
    · intro _ hordinary
      simp [Envelope.ordinary, transportFailureEnvelope] at hordinary
    · intro _ hnone
      simp [leave] at hnone
  · rw [hput]
    exact .silent h rfl rfl rfl

/-- A terminal whose put may time out. -/
theorem Onward.putLast (h : Onward d d₁) {e : Envelope Λ} (hseq : e.seq = d₁.seq)
    (hdone : e.done = true) (hordinary : Carried d t → e.ordinary = true →
      d₁.queue.flatMap Envelope.items = d.shown ++ t.items ∧
        d₁.queue.flatMap Envelope.logprobs = d.logged ++ t.logprobs)
    (hcode : Carried d t → e.errorCode ≠ some "transport_failure") : Turned d t (d₁.putLast e) := by
  unfold Driver.putLast
  obtain hput | hput := d₁.put_cases e
  · rw [hput]
    exact .ends h rfl rfl hseq hdone hordinary fun hcarried _ => hcode hcarried
  · rw [hput]
    exact .silent h rfl rfl rfl

theorem orFail_true (d : Driver Λ) (f : Driver Λ → Driver Λ) : orFail (d, true) f = f d := rfl

/-- A part of a turn either happens, or the loop is left with a transport failure. -/
theorem turned_orFail (honward : Onward d r.1) (hok : r.2 = true → Turned d t (f r.1)) :
    Turned d t (orFail r f) := by
  obtain ⟨d₁, ok⟩ := r
  cases ok with
  | true => exact hok rfl
  | false => exact honward.failTransport

/-- With nothing pending, all that was shown is on the queue. -/
theorem shown_of_flushed (h : Flushed d d') : d'.shown = d'.queue.flatMap items := by
  simp [shown, pendingItems, h.text, h.reasoning]

theorem logged_of_flushed (h : Flushed d d')
    (hlogprobs : d.pendingLogprobs ≠ [] → d.pendingText ≠ []) :
    d'.logged = d'.queue.flatMap logprobs := by
  have hnone : d'.pendingLogprobs = [] := by
    obtain hnone | ⟨hsame, htext⟩ := h.logprobs
    · exact hnone
    · rw [hsame]
      by_contra hsome
      exact hlogprobs hsome htext
  simp [logged, hnone]

theorem turned_onExhausted (h : d.Live) : Turned d .exhausted d.onExhausted := by
  obtain ⟨hkeeps, hflushed⟩ := d.flushPending_spec false
  refine turned_orFail (hkeeps.onward h) fun hok => ?_
  refine (hkeeps.onward h).putLast rfl rfl ?_ (by simp [Envelope.errorCode])
  intro hcarried _
  rw [← shown_of_flushed (hflushed hok), ← logged_of_flushed (hflushed hok) hcarried,
    hkeeps.shown, hkeeps.logged]
  simp [Turn.items, Turn.logprobs]

theorem clientSafe_ne {errorCode : String} (h : errorCode ≠ "transport_failure") :
    clientSafeGenerationErrorCode (some errorCode) ≠ "transport_failure" := by
  unfold clientSafeGenerationErrorCode
  dsimp only [Option.getD_some]
  split
  · exact h
  · simp

theorem turned_onRaised (h : d.Live) (errorCode errorMessage : String) :
    Turned d (.raised errorCode errorMessage) (d.onRaised errorCode errorMessage) := by
  refine ((Keeps.refl d).onward h).putLast rfl rfl ?_ ?_
  · intro _ hordinary
    simp [Envelope.ordinary] at hordinary
  · intro hcarried
    simpa [Envelope.errorCode, encodeError] using clientSafe_ne hcarried

theorem turned_onCancelled (h : d.Live) : Turned d .cancelled d.onCancelled := by
  obtain ⟨hkeeps, -⟩ := d.flushPending_spec false
  unfold onCancelled
  generalize d.flushPending false = r at hkeeps
  obtain ⟨d₁, ok⟩ := r
  have honward := hkeeps.onward h
  cases ok with
  | false => exact .silent honward rfl rfl honward.live.terminalSent
  | true =>
    refine honward.putLast rfl rfl ?_ (by simp [Envelope.errorCode])
    intro _ hordinary
    simp [Envelope.ordinary] at hordinary

/-- Nothing is pending. -/
def Quiet (d : Driver Λ) : Prop :=
  d.pendingText = [] ∧ d.pendingReasoning = [] ∧ d.pendingLogprobs = []

theorem turned_onCandidate (h : d.Live) (hquiet : d.Quiet) (c : GenerationChunk Λ) (due : Bool) :
    Turned d (.chunk c due) (d.onCandidate c) := by
  obtain ⟨htext, hreasoning, hlogprobs⟩ := hquiet
  unfold onCandidate
  obtain hput | hput := d.putNext_cases (d.candidateEnvelope c)
  · rw [hput, orFail_true, id]
    refine .goesOn ⟨h.took rfl rfl, prefix_append _ _⟩ fun _ => ⟨?_, ?_⟩
    · simp [shown, pendingItems, htext, hreasoning, candidateEnvelope, Envelope.items,
        GenerationChunk.items, Turn.items]
    · simp [logged, hlogprobs, candidateEnvelope, Turn.logprobs]
  · rw [hput]
    exact (Keeps.missed.onward h).failTransport

theorem turned_onToolCall (h : d.Live) {delta : ToolCallDelta}
    (hdelta : c.toolCallDelta = some delta) (due : Bool) :
    Turned d (.chunk c due) (d.onToolCall delta) := by
  obtain ⟨hkeeps, hflushed⟩ := d.flushPending_spec false
  refine turned_orFail (hkeeps.onward h) fun hok => ?_
  have hflushed := hflushed hok
  generalize (d.flushPending false).1 = d₁ at hkeeps hflushed ⊢
  obtain hput | hput := d₁.putNext_cases
    { seq := d₁.seq, isFirst := d₁.seq = 0, toolCallDelta := some delta }
  · rw [hput, orFail_true, id]
    refine .goesOn ⟨(hkeeps.live h).took rfl rfl, hkeeps.grown.trans (prefix_append _ _)⟩ ?_
    rintro ⟨halone, -⟩
    obtain ⟨-, htext, hreasoning, hlogprobs⟩ := halone (by simp [hdelta])
    constructor
    · rw [← hkeeps.shown]
      simp [shown, pendingItems, hflushed.text, hflushed.reasoning, Envelope.items, Turn.items,
        GenerationChunk.items, htext, hreasoning, hdelta]
    · rw [← hkeeps.logged]
      simp [logged, Turn.logprobs, hlogprobs]
  · rw [hput]
    exact ((hkeeps.onward h).keeps .missed).failTransport

/-- A chunk is noted, and the rest of the turn goes on from there. -/
theorem turned_noteReasoning (h : d.Live)
    (hf : ∀ d₁, Pended d c d₁ → Onward d (d₁.noteText c) → Turned d t (f d₁)) :
    Turned d t (orFail (d.noteReasoning c) f) := by
  obtain ⟨honward, hpended⟩ := d.noteReasoning_spec c
  obtain ⟨hnoted, -⟩ := (d.noteReasoning c).1.noteText_spec c
  exact turned_orFail (honward h) fun hok =>
    hf _ (hpended hok) ⟨hnoted (honward h).live, (honward h).grown⟩

theorem turned_onDelta (h : d.Live) (hnone : c.toolCallDelta = none) (due : Bool) :
    Turned d (.chunk c due) (d.onDelta c due) := by
  refine turned_noteReasoning h fun d₁ hpended honward => ?_
  obtain ⟨-, hshown, hlogged⟩ := d₁.noteText_spec c
  have hgrows : (d₁.noteText c).shown = d.shown ++ (Turn.chunk c due).items ∧
      (d₁.noteText c).logged = d.logged ++ (Turn.chunk c due).logprobs := by
    rw [hshown, hlogged, hpended.shown, hpended.logged]
    simp [Turn.items, Turn.logprobs, GenerationChunk.items, hnone]
  dsimp only
  split
  · obtain ⟨hkeeps, -⟩ := (d₁.noteText c).flushPending_spec true
    refine turned_orFail (honward.keeps hkeeps) fun _ => ?_
    refine .goesOn (honward.keeps hkeeps) fun _ => ?_
    rwa [id, hkeeps.shown, hkeeps.logged]
  · exact .goesOn honward fun _ => hgrows

/-- A terminal chunk whose logprobs have text to go out with. -/
theorem logprobs_carried {due : Bool} (hcarried : Carried d (.chunk c due)) (hdone : c.done = true)
    (hpended : Pended d c d₁) :
    (d₁.noteText c).pendingLogprobs ≠ [] → (d₁.noteText c).pendingText ≠ [] := by
  obtain ⟨hbefore, hown, -⟩ := hcarried.2 hdone
  by_cases htext : c.textDelta = ""
  · simp only [noteText, htext, if_true, ne_eq, not_true_eq_false, or_false, false_or] at *
    obtain ⟨rfl, -⟩ | ⟨hsome, -, hlogprobs⟩ := hpended.pending
    · intro hlogprobs hempty
      rw [append_eq_nil_iff, not_and_or] at hlogprobs
      obtain hlogprobs | hlogprobs := hlogprobs
      · exact hbefore hlogprobs hempty
      · exact (hown hlogprobs).2 hempty
    intro hne
    have hc : c.logprobs = [] := by
      by_contra hc
      exact hsome (hown hc).1
    obtain hnil | ⟨hsame, hempty⟩ := hlogprobs
    · simp [hnil, hc] at hne
    · rw [hsame, hc, append_nil] at hne
      exact absurd hempty (hbefore hne)
  · simp [noteText, htext]

theorem turned_onDone (h : d.Live) (settings : Settings) (hdone : c.done = true) (due : Bool) :
    Turned d (.chunk c due) (d.onDone settings c) := by
  refine turned_noteReasoning h fun d₁ hpended honward => ?_
  obtain ⟨-, hshown, hlogged⟩ := d₁.noteText_spec c
  obtain ⟨hkeeps, hflushed⟩ := (d₁.noteText c).flushPending_spec false
  refine turned_orFail (honward.keeps hkeeps) fun hok => ?_
  have hflushed := hflushed hok
  have honward₂ := honward.keeps hkeeps
  generalize ((d₁.noteText c).flushPending false).1 = d₂ at hkeeps hflushed honward₂ ⊢
  obtain hput | hput := d₂.put_cases (terminalOf settings d₂.seq c)
  · rw [hput]
    refine .ends (e := terminalOf settings d₂.seq c) honward₂ rfl rfl rfl rfl ?_ ?_
    · intro hcarried _
      have hnone : c.toolCallDelta = none := by
        by_contra hsome
        have halone := hcarried.1 (Option.isSome_iff_ne_none.mpr hsome)
        simp [hdone] at halone
      rw [← shown_of_flushed hflushed,
        ← logged_of_flushed hflushed (logprobs_carried hcarried hdone hpended), hkeeps.shown,
        hkeeps.logged, hshown, hlogged, hpended.shown, hpended.logged]
      simp [Turn.items, Turn.logprobs, GenerationChunk.items, hnone]
    · intro hcarried _
      obtain ⟨-, -, _⟩ := hcarried.2 hdone
      have hgiven : c.errorCode.getD "inference_error" ≠ "transport_failure" := by
        cases herror : c.errorCode <;> simp_all
      unfold Envelope.errorCode terminalOf
      dsimp only
      split
      · simpa [encodeError] using clientSafe_ne hgiven
      · simp
  · rw [hput]
    exact (honward₂.keeps .missed).failTransport

/-- **One turn.** -/
theorem turned (h : d.Live) (settings : Settings)
    (hquiet : settings.multiCandidateStream = true → d.Quiet) (t : Turn Λ) :
    Turned d t (d.turn settings t) := by
  cases t with
  | chunk c due =>
    unfold turn onChunk
    dsimp only
    split
    next hmulti => exact turned_onCandidate h (hquiet (Bool.and_eq_true_iff.mp hmulti).1) c due
    split_ifs with hdone
    · exact turned_onDone h settings hdone due
    · cases hdelta : c.toolCallDelta with
      | some => exact turned_onToolCall h hdelta due
      | none => exact turned_onDelta h hdelta due
  | exhausted => exact turned_onExhausted h
  | raised errorCode errorMessage => exact turned_onRaised h errorCode errorMessage
  | cancelled => exact turned_onCancelled h

theorem running_orFail (h : ∀ d, (f d).running = false) : (orFail r f).running = false := by
  obtain ⟨d₁, ok⟩ := r
  cases ok with
  | true => exact h d₁
  | false => rfl

/-- With several candidates nothing is ever pending. -/
theorem quiet_turn (h : d.Quiet) (settings : Settings)
    (hmulti : settings.multiCandidateStream = true)
    (hrunning : (d.turn settings t).running = true) : (d.turn settings t).Quiet := by
  have hleft : ∀ {d' : Driver Λ}, d'.running = false → d'.running = true → d'.Quiet := by
    intro d' hleft hrunning
    simp [hleft] at hrunning
  cases t with
  | chunk c =>
    simp only [turn, onChunk, hmulti, Bool.true_and] at hrunning ⊢
    split at hrunning
    next hnot =>
      rw [if_pos hnot]
      unfold onCandidate at hrunning ⊢
      obtain hput | hput := d.putNext_cases (d.candidateEnvelope c)
      · rwa [hput, orFail_true]
      · rw [hput] at hrunning
        simp [orFail, failTransport, leave] at hrunning
    next hdone =>
      rw [if_neg hdone]
      rw [if_pos (by simpa using hdone)] at hrunning ⊢
      exact hleft (running_orFail fun _ => running_orFail fun _ => running_orFail fun _ => rfl)
        hrunning
  | exhausted => exact hleft (running_orFail fun _ => rfl) hrunning
  | raised => exact hleft rfl hrunning
  | cancelled =>
    refine hleft ?_ hrunning
    unfold turn onCancelled
    dsimp only
    split <;> rfl

end Driver

/-- The queue only grows. -/
theorem Turned.grown {d d' : Driver Λ} {t : Turn Λ} (h : Turned d t d') : d.queue <+: d'.queue := by
  cases h with
  | goesOn honward => exact honward.grown
  | silent honward _ hqueue => exact hqueue ▸ honward.grown
  | ends honward _ hqueue =>
    rw [hqueue]
    exact honward.grown.trans (prefix_append _ _)

/-! ## Whole runs -/

namespace Worker

variable {complete : Prop} {items : List Item} {logprobs : List Λ} {w : Worker Λ} {complete' : Prop}
  {d d' : Driver Λ} {e : Envelope Λ} {events : List (WorkerEvent Λ)} {outputs : List Empty}
  {settings : Settings}

/-- The turns of a run. -/
def turns (events : List (WorkerEvent Λ)) : List (Turn Λ) :=
  events.filterMap fun
    | .turn t _ => some t
    | _ => none

/-- Every turn of the loop loses nothing. -/
def CarriedEvent (w : Worker Λ) : WorkerEvent Λ → Prop
  | .turn t _ => Carried w.driver t
  | _ => True

instance [DecidableEq Λ] (w : Worker Λ) (e : WorkerEvent Λ) : Decidable (CarriedEvent w e) := by
  unfold CarriedEvent
  split <;> infer_instance

/-- The loop, with what the adapter produced so far. -/
inductive Looped (complete : Prop) (items : List Item) (logprobs : List Λ) (d : Driver Λ) : Prop
  | running (hlive : d.Live) (hgrows : complete → d.shown = items ∧ d.logged = logprobs)
  | silent (hrunning : d.running = false)
      (hseqs : d.queue.map Envelope.seq = range d.queue.length)
      (hdone : ∀ e ∈ d.queue, e.done = false)
  | ended (before : List (Envelope Λ)) (e : Envelope Λ) (hrunning : d.running = false)
      (hseqs : d.queue.map Envelope.seq = range d.queue.length)
      (hqueue : d.queue = before ++ [e]) (hbefore : ∀ e ∈ before, e.done = false)
      (hdone : e.done = true)
      (hordinary : complete → e.ordinary = true →
        before.flatMap Envelope.items = items ∧ before.flatMap Envelope.logprobs = logprobs)
      (hcode : complete → d.transportFailurePublished = false →
        e.errorCode ≠ some "transport_failure")

/-- A run whose conditions are stronger, and which tells the same. -/
theorem Looped.mono (h : Looped complete items logprobs d) (himp : complete' → complete) :
    Looped complete' items logprobs d := by
  cases h with
  | running hlive hgrows => exact .running hlive fun hc => hgrows (himp hc)
  | silent hrunning hseqs hdone => exact .silent hrunning hseqs hdone
  | ended before e hrunning hseqs hqueue hbefore hdone hordinary hcode =>
    exact .ended before e hrunning hseqs hqueue hbefore hdone
      (fun hc => hordinary (himp hc)) fun hc => hcode (himp hc)

/-- A turn of the loop. -/
theorem looped_of_turned {t : Turn Λ} (hgrows : complete → d.shown = items ∧ d.logged = logprobs)
    (himp : complete' → complete ∧ Carried d t) (hturned : Turned d t d') :
    Looped complete' (items ++ t.items) (logprobs ++ t.logprobs) d' := by
  cases hturned with
  | goesOn honward hgrows' =>
    refine .running honward.live fun hc => ?_
    obtain ⟨hbefore, hcarried⟩ := himp hc
    rw [(hgrows' hcarried).1, (hgrows' hcarried).2, (hgrows hbefore).1, (hgrows hbefore).2]
    exact ⟨rfl, rfl⟩
  | silent honward hrunning hqueue =>
    refine .silent hrunning ?_ ?_
    · rw [hqueue]
      exact honward.live.seqs
    · rw [hqueue]
      exact honward.live.not_done
  | @ends d₁ _ e honward hrunning hqueue hseq hdone hordinary hcode =>
    refine .ended d₁.queue e hrunning ?_ hqueue honward.live.not_done hdone ?_ ?_
    · rw [hqueue]
      exact Driver.seqs_concat honward.live.seqs (hseq.trans honward.live.next)
    · intro hc hordinary'
      obtain ⟨hbefore, hcarried⟩ := himp hc
      rw [← (hgrows hbefore).1, ← (hgrows hbefore).2]
      exact hordinary hcarried hordinary'
    · intro hc
      exact hcode (himp hc).2

/-- The publisher and the acknowledgement. -/
structure Drained (w : Worker Λ) : Prop where
  published : w.published <+: w.driver.queue
  returned : w.publisherOk = some true → w.driver.running = false ∧
    w.published = w.driver.queue ∧ w.published.any done = true
  acked : w.acked = true → w.publisherOk = some true ∧ w.driver.transportFailurePublished = false

theorem Drained.turn (h : w.Drained) (hrunning : w.driver.running = true)
    (hgrown : w.driver.queue <+: d'.queue) : { w with driver := d' }.Drained := by
  have hnot : ¬ w.publisherOk = some true := by
    intro hok
    simp [(h.returned hok).1] at hrunning
  exact ⟨h.published.trans hgrown, fun hok => absurd hok hnot,
    fun hacked => absurd (h.acked hacked).1 hnot⟩

theorem Drained.publish {rest : List (Envelope Λ)} (h : w.Drained) (hwaits : w.publisherOk = none)
    (hnext : w.driver.queue.drop w.published.length = e :: rest) :
    { w with published := w.published ++ [e] }.Drained := by
  refine ⟨?_, by simp [hwaits], ?_⟩
  · obtain ⟨_, htail⟩ := h.published
    rw [← htail, drop_left] at hnext
    exact ⟨rest, by simp [← htail, hnext]⟩
  · intro hacked
    cases hwaits.symm.trans (h.acked hacked).1

theorem Drained.sentinel (h : w.Drained) (hwaits : w.publisherOk = none)
    (hleft : w.driver.running = false) (hall : w.driver.queue.drop w.published.length = []) :
    { w with publisherOk := some (w.published.any done) }.Drained := by
  refine ⟨h.published, ?_, ?_⟩
  · intro hok
    obtain ⟨_, htail⟩ := h.published
    rw [← htail, drop_left] at hall
    exact ⟨hleft, by simpa [hall] using htail, Option.some.inj hok⟩
  · intro hacked
    cases hwaits.symm.trans (h.acked hacked).1

theorem Drained.settle (h : w.Drained) (closeFailed : Bool) :
    { w with
      settled := true
      publisherOk := some (w.publisherOk.getD false)
      acked := !closeFailed && w.driver.terminalSent && w.publisherOk.getD false &&
        !w.driver.transportFailurePublished }.Drained := by
  have hreturned : some (w.publisherOk.getD false) = some true → w.publisherOk = some true := by
    cases w.publisherOk <;> simp
  refine ⟨h.published, fun hok => h.returned (hreturned hok), ?_⟩
  intro hacked
  simp at hacked
  exact ⟨by simp [hacked.1.2], hacked.2⟩

/-- The worker after some events. -/
structure Sound (settings : Settings) (events : List (WorkerEvent Λ)) (w : Worker Λ) : Prop where
  looped : Looped (Along (step settings) CarriedEvent (start Λ) events)
    ((turns events).flatMap Turn.items) ((turns events).flatMap Turn.logprobs) w.driver
  quiet : settings.multiCandidateStream = true → w.driver.running = true → w.driver.Quiet
  drained : w.Drained

/-- **One event.** -/
theorem Sound.next {e : WorkerEvent Λ} {r : Worker Λ × List Empty}
    (hrun : runs (step settings) (start Λ) events = some (w, outputs)) (h : Sound settings events w)
    (hstep : w.step settings e = some r) : Sound settings (events ++ [e]) r.1 := by
  have hbefore : Along (step settings) CarriedEvent (start Λ) (events ++ [e]) →
      Along (step settings) CarriedEvent (start Λ) events ∧ CarriedEvent w e :=
    fun hall => (along_append hall hrun).imp_right fun hlast => hlast.1
  -- Only a turn touches the loop.
  have hsame : ∀ {w' : Worker Λ}, w'.driver = w.driver → (turns [e] = []) → w'.Drained →
      Sound settings (events ++ [e]) w' := by
    intro w' hdriver hturns hdrained
    have hall : turns (events ++ [e]) = turns events := by
      rw [turns, filterMap_append, ← turns, ← turns, hturns, append_nil]
    refine ⟨?_, by simpa [hdriver] using h.quiet, hdrained⟩
    rw [hall, hdriver]
    exact h.looped.mono fun hc => (hbefore hc).1
  cases e with
  | turn t puts =>
    simp [step] at hstep
    obtain ⟨hrunning, ⟨⟩⟩ := hstep
    have hall : turns (events ++ [.turn t puts]) = turns events ++ [t] := by simp [turns]
    cases h.looped with
    | silent hleft | ended _ _ hleft => simp [hleft] at hrunning
    | running hlive hgrows =>
      have hlive' : { w.driver with puts }.Live := { hlive with }
      have hquiet : settings.multiCandidateStream = true → { w.driver with puts }.Quiet :=
        fun hmulti => h.quiet hmulti hrunning
      have hturned := Driver.turned hlive' settings hquiet t
      have hgrown := hturned.grown
      refine ⟨?_, ?_, h.drained.turn hrunning hgrown⟩
      · rw [hall, flatMap_append, flatMap_append, flatMap_singleton, flatMap_singleton]
        refine looped_of_turned (d := { w.driver with puts }) hgrows (fun hc => ?_) hturned
        refine ⟨(hbefore hc).1, ?_⟩
        cases t <;> exact (hbefore hc).2
      · intro hmulti hstill
        exact Driver.quiet_turn (hquiet hmulti) settings hmulti hstill
  | publish =>
    unfold step at hstep
    dsimp only at hstep
    split at hstep
    next e _ hwaits hnext =>
      split at hstep
      · cases hstep
        exact hsame rfl rfl (h.drained.publish hwaits hnext)
      cases hstep
      refine hsame rfl rfl ⟨h.drained.published, by simp, ?_⟩
      intro hacked
      cases hwaits.symm.trans (h.drained.acked hacked).1
    · simp at hstep
  | sentinel =>
    simp only [step, Option.ite_none_right_eq_some] at hstep
    obtain ⟨⟨hwaits, hleft, hnext⟩, ⟨⟩⟩ := hstep
    exact hsame rfl rfl (h.drained.sentinel hwaits hleft hnext)
  | settle closeFailed =>
    simp [step] at hstep
    cases hstep.2
    exact hsame rfl rfl (h.drained.settle closeFailed)

/-- A terminal is the last envelope of the queue. -/
theorem Looped.terminal (h : Looped complete items logprobs d) {before after : List (Envelope Λ)}
    (hqueue : d.queue = before ++ e :: after) (hdone : e.done = true) :
    after = [] ∧ (complete → e.ordinary = true → before.flatMap Envelope.items = items ∧
        before.flatMap Envelope.logprobs = logprobs) ∧
      (complete → d.transportFailurePublished = false →
        e.errorCode ≠ some "transport_failure") := by
  have hnot : ¬ ∀ e ∈ d.queue, e.done = false := by
    intro hall
    have hfalse := hall e (by simp [hqueue])
    simp [hdone] at hfalse
  cases h with
  | running hlive => exact absurd hlive.not_done hnot
  | silent _ _ hnone => exact absurd hnone hnot
  | ended _ _ _ _ hqueue' hbefore _ hordinary hcode =>
    rw [hqueue] at hqueue'
    obtain rfl | ⟨_, _, rfl⟩ := eq_nil_or_concat after
    · obtain ⟨rfl, rfl⟩ := append_singleton_inj.mp hqueue'
      exact ⟨rfl, hordinary, hcode⟩
    rw [concat_eq_append, ← cons_append, ← append_assoc] at hqueue'
    obtain ⟨rfl, -⟩ := append_singleton_inj.mp hqueue'
    have hfalse := hbefore e (by simp)
    simp [hdone] at hfalse

theorem sound_of_runs (hrun : runs (step settings) (start Λ) events = some (w, outputs)) :
    Sound settings events w := by
  refine runs_induction (fun events _ w => Sound settings events w) ?_ ?_ events outputs w hrun
  · refine ⟨.running ⟨rfl, rfl, rfl, by simp [start, Driver.start], rfl, rfl⟩
      fun _ => ⟨rfl, rfl⟩, fun _ _ => ⟨rfl, rfl, rfl⟩, ?_⟩
    exact ⟨prefix_rfl, by simp [start], by simp [start]⟩
  · intro events outputs w e w' o hrun hsound hstep
    exact hsound.next hrun hstep

/-- **No content is dropped silently.**  The envelopes on the queue are numbered without gaps,
and the work item is acknowledged only if all of them were published, the terminal among
them.  If every turn carried its content, then all that the adapter produced was put on the
queue before an ordinary terminal, once and in order, and no acknowledged item ended in a
transport failure. -/
theorem no_silent_drop {settings : Settings} {events : List (WorkerEvent Λ)} {w : Worker Λ}
    {outputs : List Empty} (hrun : runs (step settings) (start Λ) events = some (w, outputs)) :
    w.driver.queue.map Envelope.seq = range w.driver.queue.length ∧
    (w.acked = true → w.published = w.driver.queue ∧ w.published.any Envelope.done = true) ∧
    (Along (step settings) CarriedEvent (start Λ) events →
      (∀ before e after, w.driver.queue = before ++ e :: after → e.ordinary = true → after = [] ∧
          before.flatMap Envelope.items = (turns events).flatMap Turn.items ∧
          before.flatMap Envelope.logprobs = (turns events).flatMap Turn.logprobs) ∧
      (w.acked = true → ∀ e ∈ w.driver.queue, e.done = true →
        e.errorCode ≠ some "transport_failure")) := by
  have hsound := sound_of_runs hrun
  refine ⟨?_, ?_, fun hall => ⟨?_, ?_⟩⟩
  · cases hsound.looped with
    | running hlive => exact hlive.seqs
    | silent _ hseqs | ended _ _ _ hseqs => exact hseqs
  · intro hacked
    exact (hsound.drained.returned (hsound.drained.acked hacked).1).2
  · intro before e after hqueue hordinary
    have hdone : e.done = true := by
      simp only [Envelope.ordinary, Bool.and_eq_true] at hordinary
      exact hordinary.1.1.1
    obtain ⟨hlast, hcontent, -⟩ := hsound.looped.terminal hqueue hdone
    exact ⟨hlast, hcontent hall hordinary⟩
  · intro hacked e hmem hdone
    obtain ⟨before, after, hqueue⟩ := append_of_mem hmem
    obtain ⟨-, -, hcode⟩ := hsound.looped.terminal hqueue hdone
    exact hcode hall (hsound.drained.acked hacked).2

end Worker

/-! ## A token without text -/

namespace EndOfSequence

open Worker

def settings : Settings where
  multiCandidateStream := false
  safeMessage _ _ := "generation failed"

/-- Text with its logprob; the tokens are numbered. -/
def first : Turn ℕ := .chunk { textDelta := "Hi", logprobs := [0] } false

/-- The last token comes with text. -/
def spoken : List (WorkerEvent ℕ) :=
  [.turn first [true], .turn (.chunk { textDelta := "", reasoningDelta := "Hm" } false) [],
    .turn (.chunk { textDelta := "", toolCallDelta := some { index := 0 } } false) [true, true],
    .publish true,
    .turn (.chunk { textDelta := "!", done := true, finishReason := some .stop, logprobs := [1] }
      false) [true, true],
    .publish true, .publish true, .publish true, .publish true, .sentinel, .settle false]

theorem spoken_goes : (runs (step settings) (start ℕ) spoken).isSome = true := by decide +kernel

theorem no_silent_drop_spoken :
    (reached _ _ _ spoken_goes).1.acked = true ∧
      ((reached _ _ _ spoken_goes).1.driver.queue.dropLast.flatMap logprobs = [0, 1]) ∧
      ∀ e ∈ (reached _ _ _ spoken_goes).1.driver.queue, e.done = true →
        e.errorCode ≠ some "transport_failure" := by
  have hacked : (reached _ _ _ spoken_goes).1.acked = true := by decide +kernel
  have hdrop := no_silent_drop (runs_eq_reached spoken_goes)
  have hall := hdrop.2.2 (by decide +kernel)
  refine ⟨hacked, ?_, hall.2 hacked⟩
  exact (hall.1 (reached _ _ _ spoken_goes).1.driver.queue.dropLast
    ((reached _ _ _ spoken_goes).1.driver.queue.getLast (by decide +kernel)) []
    (dropLast_append_getLast _).symm (by decide +kernel)).2.2

/-- The last token has a logprob and no text. -/
def unspoken : List (WorkerEvent ℕ) :=
  [.turn first [true],
    .turn (.chunk { textDelta := "", done := true, finishReason := some .stop, logprobs := [1] }
      false) [true],
    .publish true, .publish true, .sentinel, .settle false]

theorem unspoken_goes : (runs (step settings) (start ℕ) unspoken).isSome = true := by
  decide +kernel

/-- Every put and every publish succeeds, the terminal is ordinary and the work item is
acknowledged, but the logprob of the last token was never put on the queue. -/
theorem logprob_dropped :
    (reached _ _ _ unspoken_goes).1.acked = true ∧
      ∃ before e, (reached _ _ _ unspoken_goes).1.driver.queue = before ++ [e] ∧
        e.ordinary = true ∧ before.flatMap logprobs = [0] ∧
        (turns unspoken).flatMap Turn.logprobs = [0, 1] := by
  refine ⟨by decide +kernel, (reached _ _ _ unspoken_goes).1.driver.queue.dropLast,
    (reached _ _ _ unspoken_goes).1.driver.queue.getLast (by decide +kernel),
    (dropLast_append_getLast _).symm, ?_⟩
  decide +kernel

end EndOfSequence

end Sie.Server
