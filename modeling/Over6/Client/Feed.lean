import Over6.Client.Frames

/-! # Streams that come in pieces

A stream of frames that the type dispatch knows, none of them an empty IP reply: the
calls of `handle_socket` that take it in return, and meet every frame once.
-/

namespace Over6.Client

open MachineInt BoundedLoop EventRun Journal

/-- The calls of `handle_socket` that take in the pieces one after the other, when every write goes
through. -/
inductive Feeds : State → List (List UInt8) → State → Prop
  | done (s : State) : Feeds s [] s
  | call {s t s' : State} {bs : List UInt8} {chunks : List (List UInt8)} {env : Nat → SocketEnv}
      {fuel : Nat} (hfits : bs.length ≤ s.room) (henv : ∀ k, (env k).Obliging)
      (hcall : handleSocket (.bytes bs) env fuel s = .stopped t) (hrest : Feeds t chunks s') :
      Feeds s (bs :: chunks) s'

/-- However the bytes are cut, for a client with nothing in its buffer: every call returns, and when
all of them are in, the messages `msgs` have been met and nothing is left over. -/
def Consumes (bytes : List UInt8) (msgs : List Message) : Prop :=
  ∀ fds time₁ time₂ stale es s, runFrom fds time₁ time₂ stale es = some s → s.content = [] →
    ∀ chunks : List (List UInt8), chunks.flatten = bytes →
      (∀ before bs after t, chunks = before ++ bs :: after → Feeds s before t →
        bs.length ≤ t.room →
        ∀ env, ∃ fuel t', handleSocket (.bytes bs) env fuel t = .stopped t') ∧
      ∀ s', Feeds s chunks s' → dispatched s'.log = dispatched s.log ++ msgs ∧ s'.content = []

/-- A frame that a call gets through, and that fits the buffer. -/
def Clear (f : Frame) : Prop := Fine f ∧ f.size ≤ bufferSize

section Calls

variable {start s s' : State} {frames words : List Frame} {got bs : List UInt8}

theorem Clear.valid {f : Frame} (h : Clear f) : f.Valid := valid_of_size h.2

theorem Clear.longEnough {f : Frame} (h : Clear f) : LongEnough f.message :=
  (longEnough_iff h.1.1).mpr h.1.2

theorem handleSocket_clear (hclear : ∀ f ∈ frames, Clear f) {env : Nat → SocketEnv} {fuel : Nat}
    (henv : ∀ k, (env k).Obliging) (h : Decoded start frames got words s)
    (hfits : bs.length ≤ s.room) (hgot : got ++ bs <+: frameCode.stream frames)
    (hcall : handleSocket (.bytes bs) env fuel s = .stopped s') :
    ∃ words', Decoded start frames (got ++ bs) words' s' ∧ ¬ s'.Complete := by
  have hvalid := fun f hf => (hclear f hf).valid
  rw [handleSocket_of_bounded h.bounded hfits] at hcall
  obtain ⟨words', t, hdec, _, hend⟩ := parseLoop_last hvalid (fun _ _ => True)
    (fun _ _ _ _ _ _ _ _ _ _ _ => trivial) (h.receive hfits) hgot trivial hcall
  rcases hend with ⟨hwait, rfl⟩ | ⟨j, f, tail, more, hsplit, _, hframe⟩
  · exact ⟨words', ⟨hdec.bounded, hdec.read, hdec.held, hdec.met⟩, hwait⟩
  · have hf := hclear f (by simp [hsplit])
    exact absurd hf.1.1 (unknown_of_stop (henv j) hf.2 hframe)

theorem Feeds.decoded (hclear : ∀ f ∈ frames, Clear f) {chunks : List (List UInt8)}
    (hfeeds : Feeds s chunks s') (h : Decoded start frames got words s) (hwait : ¬ s.Complete)
    (hgot : got ++ chunks.flatten <+: frameCode.stream frames) :
    ∃ words', Decoded start frames (got ++ chunks.flatten) words' s' ∧ ¬ s'.Complete := by
  induction hfeeds generalizing got words with
  | done s =>
      rw [List.flatten_nil, List.append_nil]
      exact ⟨words, h, hwait⟩
  | @call s t s' bs chunks env fuel hfits henv hcall _ ih =>
      rw [List.flatten_cons, ← List.append_assoc] at hgot ⊢
      have hfirst := (List.prefix_append _ _).trans hgot
      obtain ⟨words₁, h₁, hwait₁⟩ := handleSocket_clear hclear henv h hfits hfirst hcall
      exact ih h₁ hwait₁ hgot

end Calls

theorem consumes_stream {frames : List Frame} (hclear : ∀ f ∈ frames, Clear f) :
    Consumes (frameCode.stream frames) (frames.map Frame.message) := by
  intro fds time₁ time₂ stale es s hrun hempty chunks hchunks
  have hvalid := fun f hf => (hclear f hf).valid
  have hs := runFrom_bounded hrun
  have hstart := Decoded.refl frames hs hempty
  have hwait : ¬ s.Complete := by
    rw [State.front_iff hs, hempty]
    decide
  constructor
  · intro before bs after t hsplit hbefore hfits env
    have hpre : before.flatten ++ bs <+: frameCode.stream frames := by
      rw [← hchunks, hsplit, List.flatten_append, List.flatten_cons, ← List.append_assoc]
      exact List.prefix_append _ _
    obtain ⟨words, hdec, _⟩ := hbefore.decoded hclear hstart hwait
      ((List.prefix_append _ _).trans hpre)
    exact hdec.returns hvalid (fun f hf => (hclear f hf).longEnough) hfits hpre env
  · intro s' hfeeds
    obtain ⟨words, hdec, hwait'⟩ := hfeeds.decoded hclear hstart hwait
      (by rw [hchunks]; exact List.prefix_refl _)
    rw [List.nil_append, hchunks] at hdec
    have hsettled := hdec.settled hvalid (List.prefix_refl _) hwait'
    obtain rfl := hsettled.complete
    refine ⟨hdec.met, ?_⟩
    have hheld := hdec.held.2
    exact (List.append_cancel_left ((List.append_nil _).trans hheld)).symm

end Over6.Client
