import Sricd.EnumBus
import Sricd.Link

/-!
# Enumeration over the serial interface

The enumeration as the serial interface runs it refines `EnumBus`: the
frame in flight and the first queue are the frames that are not done with.
It does so as long as no ack is overtaken, and then something is always
waited for (`enumeration_never_stuck`).
-/

namespace Sricd

open Sricd.Lib

namespace SricIf

/-! ## What the rest of the interface leaves alone -/

theorem txReady_pending (s : SricIf) (t : EnumTimer) :
    s.txReady.loop.pending (.enum t) = s.loop.pending (.enum t) := by
  rw [txReady]
  split
  · show (s.loop.add .ifTx).pending (.enum t) = _
    rw [MainLoop.pending_add, if_neg (by simp), Nat.add_zero]
  · rfl

theorem Aside.txReady {s t : SricIf} (h : Aside s t) : Aside s t.txReady := by
  refine ⟨?_, ?_, ?_, fun u => (t.txReady_pending u).trans (h.timers u)⟩
  · rw [txReady_rest]
    exact h.enum
  · rw [txReady_rest]
    exact h.enumerated
  · rw [txReady_rest]
    exact h.cancelled

theorem txqPush_aside (s : SricIf) (f : FrameT) (pri : Fin 2) : Aside s (s.txqPush f pri) :=
  Aside.txReady ⟨rfl, rfl, id, fun _ => rfl⟩

theorem txTimeout_aside {s : SricIf} {id : Nat} (h : (id, Source.txTimeout) ∈ s.loop.live) :
    Aside s (s.txTimeout.1.drop id) := by
  have hid : ∀ t, (id, Source.enum t) ∉ s.loop.live :=
    fun t ht => absurd (MainLoop.kind_unique h ht) (by simp)
  have hdrop : ∀ t : SricIf, Aside s t → t.loop = s.loop → Aside s (t.txReady.drop id) := by
    intro t ht hloop
    refine ht.txReady.drop fun u hu => hid u ?_
    rwa [txReady_live _ _ (by simp), hloop] at hu
  rw [txTimeout]
  by_cases hc : s.frameCancelled = true
  · simp only [if_pos hc]
    exact hdrop _ ⟨rfl, rfl, fun h => h, fun _ => rfl⟩ rfl
  · simp only [if_neg hc]
    exact hdrop _ ⟨rfl, rfl, fun h => h, fun _ => rfl⟩ rfl

theorem acked_aside {s : SricIf} (h : TxCore s) : Aside s s.acked := by
  refine Aside.txReady ⟨rfl, rfl, fun h => h, ?_⟩
  intro t
  exact MainLoop.pending_remove_of_ne fun ht => absurd (h.retxmit_kind _ ht) (by simp)

/-- What the enumeration asks for changes neither its own state nor that of
the frame in flight. -/
theorem acts_same (s : SricIf) (as : List EnumAction) :
    (s.acts as).1.enum = s.enum ∧ (s.acts as).1.enumerated = s.enumerated
      ∧ (s.acts as).1.frameCancelled = s.frameCancelled := by
  induction as generalizing s with
  | nil => exact ⟨rfl, rfl, rfl⟩
  | cons a as ih =>
      have hact : (s.act a).1.enum = s.enum ∧ (s.act a).1.enumerated = s.enumerated
          ∧ (s.act a).1.frameCancelled = s.frameCancelled := by
        cases a with
        | push f =>
            show (txReady _).enum = _ ∧ (txReady _).enumerated = _ ∧ (txReady _).frameCancelled = _
            rw [txReady_rest]
            exact ⟨rfl, rfl, rfl⟩
        | addTimer t => exact ⟨rfl, rfl, rfl⟩
        | deviceAdd i t => exact ⟨rfl, rfl, rfl⟩
      obtain ⟨h₁, h₂, h₃⟩ := ih (s.act a).1
      exact ⟨h₁.trans hact.1, h₂.trans hact.2.1, h₃.trans hact.2.2⟩

theorem acts_pending (s : SricIf) (as : List EnumAction) (t : EnumTimer) :
    (s.acts as).1.loop.pending (.enum t) = s.loop.pending (.enum t) + as.count (.addTimer t) := by
  induction as generalizing s with
  | nil => rfl
  | cons a as ih =>
      show ((s.act a).1.acts as).1.loop.pending _ = _
      rw [ih, List.count_cons]
      cases a with
      | push f =>
          show (txReady _).loop.pending _ + _ = _
          rw [txReady_pending]
          rfl
      | addTimer u =>
          show (s.loop.add (.enum u)).pending _ + _ = _
          rw [MainLoop.pending_add]
          by_cases hu : u = t
          · simp [hu]
            omega
          · simp [hu]
      | deviceAdd i c => rfl

/-! ## The frames that are not done with -/

/-- The frame in flight, and those of the first queue. -/
def unfinished (s : SricIf) : List FrameT := (s.txFrame.toList ++ s.txq.q0).map TxEntry.frame

theorem unfinished_txReady (s : SricIf) : s.txReady.unfinished = s.unfinished := by
  rw [txReady_rest]
  rfl

theorem unfinished_txTimeout {s : SricIf} (h : s.frameCancelled = false) :
    s.txTimeout.1.unfinished = s.unfinished := by
  rw [txTimeout, if_neg (by rw [h]; exact Bool.false_ne_true)]
  exact unfinished_txReady _

theorem unfinished_acked {s : SricIf} {e : TxEntry} (h : s.txFrame = some e) :
    s.unfinished = e.frame :: s.acked.unfinished := by
  rw [acked, unfinished_txReady, unfinished, h]
  rfl

theorem unfinished_push (s : SricIf) (f : FrameT) :
    (s.txqPush f 0).unfinished = s.unfinished ++ [f] := by
  rw [txqPush, unfinished_txReady]
  simp [unfinished, TxQueue.push, Queue.pushHead, TxQueue.alloc]

theorem unfinished_request (s : SricIf) (f : FrameT) :
    (s.txqPush f 1).unfinished = s.unfinished := by
  rw [txqPush, unfinished_txReady]
  rfl

theorem unfinished_acts (s : SricIf) (as : List EnumAction) :
    (s.acts as).1.unfinished = s.unfinished ++ EnumBus.frames as := by
  induction as generalizing s with
  | nil => exact (List.append_nil _).symm
  | cons a as ih =>
      show ((s.act a).1.acts as).1.unfinished = _
      rw [ih]
      cases a with
      | push f =>
          show (s.txqPush f 0).unfinished ++ _ = _
          rw [unfinished_push]
          exact List.append_assoc ..
      | addTimer t => rfl
      | deviceAdd i c => rfl

/-- The next frame comes from the first queue, before the end of the
enumeration. -/
theorem unfinished_origin {s s' : SricIf} {e : TxEntry} (he : s.enumerated = false)
    (h : Origin s s' e) : s.unfinished = e.frame :: s'.txq.q0.map TxEntry.frame := by
  rcases h with ⟨hf, hq⟩ | ⟨hf, hn⟩
  · rw [unfinished, hf, hq]
    rfl
  · rw [he] at hn
    rcases (TxQueue.next_some hn).2 with ⟨hq, -⟩ | ⟨-, -, hp, -⟩
    · rw [unfinished, hf, hq]
      rfl
    · exact absurd rfl hp

/-- No frame of the enumeration is a client's. -/
theorem unfinished_cancel {s : SricIf} (h : ∀ f ∈ s.unfinished, f.tag = .null ∨ f.tag = .badEnum)
    (c : Nat) : (s.txqCancel (.client c)).1.unfinished = s.unfinished
      ∧ (s.txqCancel (.client c)).1.frameCancelled = s.frameCancelled := by
  have hne : ∀ e ∈ s.txFrame.toList ++ s.txq.q0, e.frame.tag ≠ .client c := by
    intro e he htag
    rcases h e.frame (List.mem_map_of_mem he) with ht | ht <;> rw [ht] at htag <;> cases htag
  constructor
  · rw [txqCancel_rest, unfinished, unfinished]
    simp only [TxQueue.cancel_q0, others]
    rw [List.filter_eq_self.mpr]
    intro e he
    simpa using hne e (List.mem_append_right _ he)
  · simp only [txqCancel, ifCancel]
    rw [if_neg]
    intro hf
    obtain ⟨e, he, ht⟩ := Option.map_eq_some_iff.mp hf
    exact hne e (List.mem_append_left _ (by rw [he]; exact List.mem_cons_self)) ht

end SricIf

namespace Link

/-- The answers of a bus on which each frame of the enumeration is answered
by the node that handles it. -/
def FromNode (f : FrameT) (p : PackedFrame) : Prop := f.tag = .badEnum → Answers f p

instance (f : FrameT) (p : PackedFrame) : Decidable (FromNode f p) :=
  inferInstanceAs (Decidable (_ → _))

/-! ## After the enumeration -/

/-- Enumeration is over. -/
def Over (s : SricIf) : Prop := s.enumerated = true ∧ s.enum.state = .enumerated

theorem Over.aside {s s' : SricIf} (h : Over s) (ha : SricIf.Aside s s') : Over s' :=
  ⟨ha.enumerated.trans h.1, (congrArg Enum.state ha.enum).trans h.2⟩

theorem fsm_enumerated {e : Enum} (h : e.state = .enumerated) (ev : EnumEvent) :
    e.fsm ev = some (e, []) := by
  rw [Enum.fsm]
  simp only [h]

/-- A step of the state machine. -/
theorem Over.enumStep {s s' : SricIf} {e : Enum} {as : List EnumAction} {out : List IfOut}
    (h : Over s) (he : e.state = .enumerated) (hs : s.enumStep (some (e, as)) = .ok (s', out)) :
    Over s' := by
  obtain rfl : _ = s' := congrArg Prod.fst (Except.ok.inj hs)
  obtain ⟨henum, hen, -⟩ := SricIf.acts_same { s with enum := e } as
  exact ⟨hen.trans h.1, (congrArg Enum.state henum).trans he⟩

theorem Over.fsm {s s' : SricIf} {ev : EnumEvent} {out : List IfOut} (h : Over s)
    (hs : s.enumStep (s.enum.fsm ev) = .ok (s', out)) : Over s' := by
  rw [fsm_enumerated h.2] at hs
  exact h.enumStep h.2 hs

/-- **Nothing ends it again.** -/
theorem Over.sricIf_step {s s' : SricIf} {ev : IfEvent} {out : List IfOut} (hi : s.TxInv)
    (h : Over s) (hs : s.step ev = .ok (s', out)) : Over s' := by
  obtain ⟨hlive, hh⟩ := SricIf.step_handle hs
  cases ev with
  | enumStart => exact h.fsm hh
  | push f pri =>
      cases hh
      exact h.aside (SricIf.txqPush_aside _ _ _)
  | cancel tag =>
      obtain rfl : _ = s' := congrArg Prod.fst (Except.ok.inj hh)
      rw [SricIf.txqCancel_rest]
      exact h
  | ifTx id w => exact h.aside (SricIf.write_cases hi hs).1
  | txTimeout id =>
      obtain rfl : _ = s' := congrArg Prod.fst (Except.ok.inj hh)
      exact h.aside (SricIf.txTimeout_aside (hlive _ rfl))
  | killToken id =>
      obtain ⟨u, hu, rfl⟩ := SricIf.killToken_cases hh
      have hover : Over u := h.fsm hu
      exact hover
  | sendReset id =>
      obtain ⟨u, enum, as, again, hr, hu, rfl⟩ := SricIf.sendReset_cases hh
      have he : enum.state = .enumerated := by
        rw [Enum.sendResetTimeout] at hr
        split at hr
        · rw [fsm_enumerated (by exact h.2)] at hr
          cases hr
          exact h.2
        · cases hr
          exact h.2
      have hover := h.enumStep he hu
      cases again <;> exact hover
  | frame bytes =>
      have hover := h.aside (SricIf.acked_aside hi.toTxCore)
      rcases SricIf.procRxFrame_cases hh with ⟨rfl, -⟩ | ⟨-, rfl, -⟩ | ⟨e, hf, -, hret⟩
      · exact h
      · exact h.aside (SricIf.txqPush_aside _ _ _)
      · rcases SricIf.retire_cases hf hret with ⟨-, rfl, -⟩ | ⟨-, -, rfl, -⟩ | ⟨_, _, _, -, hno, -⟩
        · exact hover
        · exact hover
        · exact absurd (hno.symm.trans h.1) (by simp)

theorem Over.step {s s' : Link} {ev : LinkEvent} {out : List IfOut} (hi : Inv FromNode s)
    (h : Over s.sricIf) (hin : s.InStep ev) (hs : step FromNode s ev = .ok (s', out)) : Over s'.sricIf := by
  cases ev with
  | write id w answer =>
      obtain ⟨t, ht, hanswer⟩ := write_ok hs
      have hover := h.sricIf_step hi.txInv ht
      rcases hanswer with ⟨-, rfl⟩ | ⟨bytes, e, -, -, -, -, rfl⟩
      · exact hover
      · exact hover
  | received bytes =>
      rw [Link.step] at hs
      split at hs
      · cases hs
      · obtain ⟨t, ht, rfl⟩ := call_ok hs
        exact h.sricIf_step hi.txInv ht
  | ack =>
      rcases hi.ack hin hs with ⟨hsame, -⟩ | ⟨e, bytes, hf, -, -, hret⟩
      · rw [hsame]
        exact h
      · have hover := h.aside (SricIf.acked_aside hi.txInv.toTxCore)
        rcases SricIf.retire_cases hf hret with ⟨-, hs', -⟩ | ⟨-, -, hs', -⟩ | ⟨_, _, _, -, hno, -⟩
        · rw [hs']
          exact hover
        · rw [hs']
          exact hover
        · exact absurd (hno.symm.trans h.1) (by simp)
  | _ =>
      rw [Link.step] at hs
      obtain ⟨t, ht, rfl⟩ := call_ok hs
      exact h.sricIf_step hi.txInv ht

/-! ## Refinement -/

/-- The interface runs the enumeration of `a`. -/
structure Enumerates (s : SricIf) (a : EnumBus) : Prop where
  going : s.enumerated = false
  cancelled : s.frameCancelled = false
  enum : a.enum = s.enum
  queue : a.queue = s.unfinished
  timers : ∀ t, a.timers t = s.loop.pending (.enum t)
  tags : ∀ f ∈ s.unfinished, f.tag = .null ∨ f.tag = .badEnum

theorem enumerates_init (d : Devices) : Enumerates .init (.init d) :=
  ⟨rfl, rfl, rfl, rfl, fun _ => rfl, fun _ h => absurd h List.not_mem_nil⟩

/-- A step that only changes what is queued. -/
theorem Enumerates.requeue {s s' : SricIf} {a b : EnumBus} (h : Enumerates s a)
    (ha : SricIf.Aside s s') (henum : b.enum = a.enum) (htimers : b.timers = a.timers)
    (hqueue : b.queue = s'.unfinished)
    (htags : ∀ f ∈ s'.unfinished, f ∈ s.unfinished ∨ f.tag = .null) : Enumerates s' b where
  going := ha.enumerated.trans h.going
  cancelled := ha.cancelled h.cancelled
  enum := (henum.trans h.enum).trans ha.enum.symm
  queue := hqueue
  timers t := by
    rw [htimers]
    exact (h.timers t).trans (ha.timers t).symm
  tags f hf := (htags f hf).elim (h.tags f) .inl

/-- A step that is invisible to the enumeration. -/
theorem Enumerates.aside {s s' : SricIf} {a : EnumBus} (h : Enumerates s a)
    (ha : SricIf.Aside s s') (hu : s'.unfinished = s.unfinished) : Enumerates s' a :=
  h.requeue ha rfl rfl (h.queue.trans hu.symm) fun _ hf => .inl (hu ▸ hf)

/-- Both ask for the same. -/
theorem Enumerates.acts {s : SricIf} {a : EnumBus} {e : Enum} {as : List EnumAction}
    (h : Enumerates s a) (ht : Enum.Tagged as) :
    Enumerates ({ s with enum := e }.acts as).1 ({ a with enum := e }.acts as) := by
  obtain ⟨henum, hen, hc⟩ := SricIf.acts_same { s with enum := e } as
  have hu := SricIf.unfinished_acts { s with enum := e } as
  refine ⟨hen.trans h.going, hc.trans h.cancelled, ?_, ?_, ?_, ?_⟩
  · rw [EnumBus.acts_enum, henum]
  · rw [EnumBus.acts_queue, hu]
    exact congrArg (· ++ EnumBus.frames as) h.queue
  · intro t
    rw [EnumBus.acts_timers, SricIf.acts_pending]
    exact congrArg (· + as.count (.addTimer t)) (h.timers t)
  · intro f hf
    rw [hu] at hf
    rcases List.mem_append.mp hf with hf | hf
    · exact h.tags f hf
    · exact ht f (EnumBus.mem_frames.mp hf)

theorem Enumerates.enumStep {s t : SricIf} {a : EnumBus} {r : Option (Enum × List EnumAction)}
    {out : List IfOut} (h : Enumerates s a) (ht : ∀ e as, r = some (e, as) → Enum.Tagged as)
    (hs : s.enumStep r = .ok (t, out)) :
    ∃ a' ps, a.enumStep r = .ok (a', ps) ∧ Enumerates t a' := by
  cases r with
  | none => cases hs
  | some p =>
      obtain ⟨e, as⟩ := p
      obtain rfl : _ = t := congrArg Prod.fst (Except.ok.inj hs)
      exact ⟨_, _, rfl, h.acts (ht e as rfl)⟩

/-- A registered timeout is pending. -/
theorem Enumerates.enabled {s : SricIf} {a : EnumBus} {id : Nat} {k : EnumTimer}
    (h : Enumerates s a) (hl : (id, Source.enum k) ∈ s.loop.live) : a.Enabled (.timeout k) := by
  show 0 < a.timers k
  rw [h.timers]
  exact MainLoop.pending_pos.mpr ⟨id, hl⟩

/-- A timeout of the enumeration that is not called again. -/
theorem Enumerates.timeout {s t : SricIf} {a : EnumBus} {r : Option (Enum × List EnumAction)}
    {out : List IfOut} {id : Nat} {k : EnumTimer} (h : Enumerates s a)
    (hl : (id, Source.enum k) ∈ s.loop.live) (ht : ∀ e as, r = some (e, as) → Enum.Tagged as)
    (hs : s.enumStep r = .ok (t, out)) :
    ∃ a' ps, (a.drop k).enumStep r = .ok (a', ps) ∧ Enumerates (t.drop id) a' := by
  have hlive := SricIf.enum_live_enumStep hs hl
  have hpos : 0 < a.timers k := h.enabled hl
  cases r with
  | none => cases hs
  | some p =>
      obtain ⟨e, as⟩ := p
      obtain rfl : _ = t := congrArg Prod.fst (Except.ok.inj hs)
      have h' := h.acts (e := e) (ht e as rfl)
      have henum := h'.enum
      have hqueue := h'.queue
      have htimers := h'.timers
      rw [EnumBus.acts_enum] at henum
      rw [EnumBus.acts_queue] at hqueue
      simp only [EnumBus.acts_timers] at htimers
      refine ⟨_, _, rfl, h'.going, h'.cancelled, ?_, ?_, ?_, h'.tags⟩
      · rw [EnumBus.acts_enum]
        exact henum
      · rw [EnumBus.acts_queue]
        exact hqueue
      · intro u
        rw [EnumBus.acts_timers]
        show (a.drop k).timers u + _ = (MainLoop.remove _ id).pending (Source.enum u)
        by_cases hu : u = k
        · subst hu
          rw [MainLoop.pending_remove hlive, ← htimers]
          simp only [EnumBus.drop, Function.update_self]
          omega
        · rw [MainLoop.pending_remove_of_ne, ← htimers]
          · simp [EnumBus.drop, hu]
          · intro hmem
            have := MainLoop.kind_unique hlive hmem
            exact hu (Source.enum.inj this).symm

/-- What is received, but is no ack for us, is not for the enumeration. -/
theorem received_cases {s t : SricIf} {bytes : List Byte} {out : List IfOut} (hnot : ¬IsAck bytes)
    (h : s.handle (.frame bytes) = .ok (t, out)) :
    t = s ∨ t = s.txqPush (SricIf.ackFor (PackedFrame.ofBytes bytes)) 0 := by
  by_cases hme : (PackedFrame.ofBytes bytes).forMe = true
  · rcases SricIf.procRxFrame_cases h with ⟨rfl, -⟩ | ⟨-, rfl, -⟩ | ⟨e, -, hack, -⟩
    · exact .inl rfl
    · exact .inr rfl
    · exact absurd ⟨hme, hack⟩ hnot
  · rw [SricIf.handle, SricIf.procRxFrame, if_pos (Bool.eq_false_iff.mpr hme)] at h
    cases h
    exact .inl rfl

section
variable {s t : SricIf} {a : EnumBus} {out : List IfOut}

/-- The start. -/
theorem Enumerates.start (h : Enumerates s a) (hs : s.step .enumStart = .ok (t, out)) :
    ∃ a' ps, a.step .start = .ok (a', ps) ∧ Enumerates t a' := by
  obtain ⟨a', ps, ha, h'⟩ := h.enumStep (fun _ _ => Enum.fsm_tagged) (SricIf.step_handle hs).2
  refine ⟨a', ps, EnumBus.step_ok trivial ?_, h'⟩
  rw [EnumBus.handle, h.enum]
  exact ha

/-- The timeout for the token. -/
theorem Enumerates.killToken {id : Nat} (h : Enumerates s a)
    (hs : s.step (.killToken id) = .ok (t, out)) :
    ∃ a' ps, a.step (.timeout .killToken) = .ok (a', ps) ∧ Enumerates t a' := by
  obtain ⟨hlive, hh⟩ := SricIf.step_handle hs
  obtain ⟨u, hu, rfl⟩ := SricIf.killToken_cases hh
  obtain ⟨a', ps, ha, h'⟩ := h.timeout (hlive _ rfl) (fun _ _ => Enum.fsm_tagged) hu
  refine ⟨a', ps, EnumBus.step_ok (h.enabled (hlive _ rfl)) ?_, h'⟩
  rw [EnumBus.handle, h.enum]
  exact ha

/-- The timeout for a reset. -/
theorem Enumerates.sendReset {id : Nat} (h : Enumerates s a)
    (hs : s.step (.sendReset id) = .ok (t, out)) :
    ∃ a' ps, a.step (.timeout .sendReset) = .ok (a', ps) ∧ Enumerates t a' := by
  obtain ⟨hlive, hh⟩ := SricIf.step_handle hs
  obtain ⟨u, enum, as, again, hr, hu, rfl⟩ := SricIf.sendReset_cases hh
  have htag : ∀ e as', some (enum, as) = some (e, as') → Enum.Tagged as' := by
    intro _ _ hx
    obtain ⟨⟩ := hx
    exact Enum.sendReset_tagged hr
  have hen := h.enabled (hlive _ rfl)
  cases again with
  | true =>
      obtain ⟨a', ps, ha, h'⟩ := h.enumStep htag hu
      refine ⟨a', ps, EnumBus.step_ok hen ?_, h'⟩
      simp only [EnumBus.handle, h.enum, hr]
      exact ha
  | false =>
      obtain ⟨a', ps, ha, h'⟩ := h.timeout (hlive _ rfl) htag hu
      refine ⟨a', ps, EnumBus.step_ok hen ?_, h'⟩
      simp only [EnumBus.handle, h.enum, hr]
      exact ha

/-- The timeout of the frame in flight. -/
theorem Enumerates.txTimeout {id : Nat} (h : Enumerates s a)
    (hs : s.step (.txTimeout id) = .ok (t, out)) : Enumerates t a := by
  obtain ⟨hlive, hh⟩ := SricIf.step_handle hs
  obtain rfl : _ = t := congrArg Prod.fst (Except.ok.inj hh)
  exact h.aside (SricIf.txTimeout_aside (hlive _ rfl)) (SricIf.unfinished_txTimeout h.cancelled)

/-- The next frame is written, or a part of it. -/
theorem Enumerates.writing {e : TxEntry} (h : Enumerates s a) (ha : SricIf.Aside s t)
    (ho : SricIf.Origin s t e) (hf : t.txFrame = some e) : Enumerates t a := by
  refine h.aside ha ?_
  rw [SricIf.unfinished_origin h.going ho, SricIf.unfinished, hf]
  rfl

/-- It is done with when it wants no ack. -/
theorem Enumerates.sent {e : TxEntry} (h : Enumerates s a) (ha : SricIf.Aside s t)
    (ho : SricIf.Origin s t e) (hf : t.txFrame = none) (hno : e.frame.needsAck = false) :
    ∃ a', a.step .sent = .ok (a', []) ∧ Enumerates t a' := by
  have hu := SricIf.unfinished_origin h.going ho
  have hu' : t.unfinished = t.txq.q0.map TxEntry.frame := by
    rw [SricIf.unfinished, hf]
    rfl
  have hqueue : a.queue = e.frame :: t.unfinished := by rw [h.queue, hu, hu']
  have hsent : a.handle .sent = .ok ({ a with queue := t.unfinished }, []) := by
    rw [EnumBus.handle, hqueue]
    rfl
  refine ⟨_, EnumBus.step_ok ⟨e.frame, by rw [hqueue]; rfl, hno⟩ hsent, h.requeue ha rfl rfl rfl ?_⟩
  intro f hm
  rw [hu, ← hu']
  exact .inl (List.mem_cons_of_mem _ hm)

/-- Nothing is written. -/
theorem Enumerates.unwritten (h : Enumerates s a) (ha : SricIf.Aside s t)
    (hf : t.txFrame = s.txFrame) (hq : t.txq = s.txq) : Enumerates t a :=
  h.aside ha (by rw [SricIf.unfinished, hf, hq]; rfl)

/-- A frame that is no ack for us. -/
theorem Enumerates.received {bytes : List Byte} (h : Enumerates s a) (hnot : ¬IsAck bytes)
    (hs : s.handle (.frame bytes) = .ok (t, out)) :
    Enumerates t a ∨ ∃ f a', a.step (.other f) = .ok (a', []) ∧ Enumerates t a' := by
  rcases received_cases hnot hs with rfl | rfl
  · exact .inl h
  · right
    have hu := s.unfinished_push (SricIf.ackFor (PackedFrame.ofBytes bytes))
    refine ⟨SricIf.ackFor (PackedFrame.ofBytes bytes), _, EnumBus.step_ok rfl rfl, ?_⟩
    refine h.requeue (SricIf.txqPush_aside ..) rfl rfl ?_ ?_
    · rw [hu, ← h.queue]
    · intro f hm
      rw [hu, List.mem_append, List.mem_singleton] at hm
      rcases hm with hm | rfl
      · exact .inl hm
      · exact .inr rfl

/-- The frame in flight is the oldest one. -/
theorem Enumerates.head {e : TxEntry} (h : Enumerates s a) (hf : s.txFrame = some e) :
    a.queue.head? = some e.frame := by
  rw [h.queue, SricIf.unfinished_acked hf]
  rfl

/-- An ack of the frame in flight is the answer that the enumeration sees. -/
theorem Enumerates.retire {e : TxEntry} {p : PackedFrame} (hi : s.TxInv) (h : Enumerates s a)
    (hf : s.txFrame = some e) (hneeds : e.frame.needsAck = true) (ha : FromNode e.frame p)
    (hret : s.retire e p = .ok (t, out)) :
    ∃ a' ps, a.step (.answer p) = .ok (a', ps) ∧ a'.enum = t.enum
      ∧ (Over t ∨ Enumerates t a') := by
  have hu := SricIf.unfinished_acked hf
  have hqueue : a.queue = e.frame :: s.acked.unfinished := h.queue.trans hu
  have htag : e.frame.tag = .badEnum := by
    have hne : e.frame.tag ≠ .null := by
      intro hnull
      simp [FrameT.needsAck, hnull] at hneeds
    exact (h.tags e.frame (by rw [hu]; exact List.mem_cons_self)).resolve_left hne
  rcases SricIf.retire_cases hf hret with ⟨hc, -⟩ | ⟨-, hen, -⟩ | ⟨enum, as, more, -, -, hrx, rfl, -⟩
  · exact absurd (hc.symm.trans h.cancelled) (by simp)
  · exact absurd (hen.symm.trans h.going) (by simp)
  obtain ⟨⟨enum', as'⟩, hd, heq⟩ := Option.map_eq_some_iff.mp hrx
  cases heq
  -- the frame is done with, and the enumeration sees the answer
  let b : EnumBus :=
    { a with
      queue := s.acked.unfinished
      queries := if e.frame = gwCmdHaveToken then a.queries + 1 else a.queries }
  have hdone : Enumerates s.acked b := by
    refine h.requeue (b := b) (SricIf.acked_aside hi.toTxCore) rfl rfl rfl ?_
    intro f hm
    rw [hu]
    exact .inl (List.mem_cons_of_mem _ hm)
  have hacts := hdone.acts (e := enum) (Enum.dispatch_tagged hd)
  have hanswer : a.handle (.answer p) = .ok ({ b with enum := enum }.acts as, as) := by
    simp only [EnumBus.handle, hqueue, List.head?_cons]
    rw [EnumBus.answer, h.enum, hd, hqueue]
    rfl
  refine ⟨_, as, EnumBus.step_ok ⟨e.frame, h.head hf, hneeds, ha htag⟩ hanswer, hacts.enum, ?_⟩
  by_cases hst : enum.state = .enumerated
  · refine .inl ⟨by simp [hst], ?_⟩
    exact (congrArg Enum.state (SricIf.acts_same _ as).1).trans hst
  · exact .inr ⟨by simp [hst], hacts.cancelled, hacts.enum, hacts.queue, hacts.timers, hacts.tags⟩

end

/-- `EnumBus` can follow the interface to `t`, unless enumeration is over
there. -/
def Followed (a : EnumBus) (t : SricIf) : Prop :=
  ∃ bs a' ps, run EnumBus.step a bs = .ok (a', ps) ∧ (Over t ∨ Enumerates t a')

theorem Enumerates.followed {t : SricIf} {a : EnumBus} (h : Enumerates t a) : Followed a t :=
  ⟨[], a, [], rfl, .inr h⟩

theorem Followed.single {a a' : EnumBus} {t : SricIf} {ev : EnumBusEvent} {ps : List EnumAction}
    (hs : a.step ev = .ok (a', ps)) (h : Over t ∨ Enumerates t a') : Followed a t :=
  ⟨[ev], a', ps, run_single.mpr hs, h⟩

/-- **The interface refines the enumeration**: each of its steps is one of
`EnumBus`, or invisible there, until enumeration is over. -/
theorem Enumerates.step {s s' : Link} {a : EnumBus} {ev : LinkEvent} {out : List IfOut}
    (hi : Inv FromNode s) (h : Enumerates s.sricIf a) (hin : s.InStep ev)
    (hs : step FromNode s ev = .ok (s', out)) : Followed a s'.sricIf := by
  cases ev with
  | enumStart =>
      obtain ⟨t, ht, rfl⟩ := call_ok hs
      obtain ⟨a', ps, ha, h'⟩ := h.start ht
      exact .single ha (.inr h')
  | request c f =>
      rw [Link.step] at hs
      obtain ⟨t, ht, rfl⟩ := call_ok hs
      cases (SricIf.step_handle ht).2
      exact (h.aside (SricIf.txqPush_aside _ _ _) (SricIf.unfinished_request _ _)).followed
  | cancel c =>
      rw [Link.step] at hs
      obtain ⟨t, ht, rfl⟩ := call_ok hs
      obtain ⟨hu, hc⟩ := SricIf.unfinished_cancel h.tags c
      obtain rfl : _ = t := congrArg Prod.fst (Except.ok.inj (SricIf.step_handle ht).2)
      refine (h.aside ⟨?_, ?_, fun hf => hc.trans hf, fun _ => ?_⟩ hu).followed
      all_goals rw [SricIf.txqCancel_rest]
  | write id w answer =>
      obtain ⟨t, ht, hanswer⟩ := write_ok hs
      obtain rfl : s'.sricIf = t := by
        rcases hanswer with ⟨-, rfl⟩ | ⟨_, _, -, -, -, -, rfl⟩
        · rfl
        · rfl
      obtain ⟨haside, ⟨-, hf, hq⟩ | ⟨e, ho, hcase⟩⟩ := SricIf.write_cases hi.txInv ht
      · exact (h.unwritten haside hf hq).followed
      · rcases hcase with ⟨-, hf⟩ | ⟨-, hf, -⟩ | ⟨-, hf, hno⟩
        · exact (h.writing haside ho hf).followed
        · exact (h.writing haside ho hf).followed
        · obtain ⟨a', ha, h'⟩ := h.sent haside ho hf hno
          exact .single ha (.inr h')
  | txTimeout id =>
      rw [Link.step] at hs
      obtain ⟨t, ht, rfl⟩ := call_ok hs
      exact (h.txTimeout ht).followed
  | killToken id =>
      rw [Link.step] at hs
      obtain ⟨t, ht, rfl⟩ := call_ok hs
      obtain ⟨a', ps, ha, h'⟩ := h.killToken ht
      exact .single ha (.inr h')
  | sendReset id =>
      rw [Link.step] at hs
      obtain ⟨t, ht, rfl⟩ := call_ok hs
      obtain ⟨a', ps, ha, h'⟩ := h.sendReset ht
      exact .single ha (.inr h')
  | received bytes =>
      rw [Link.step] at hs
      split at hs
      · cases hs
      rename_i hnot
      obtain ⟨t, ht, rfl⟩ := call_ok hs
      rcases h.received hnot (SricIf.step_handle ht).2 with h' | ⟨f, a', ha, h'⟩
      · exact h'.followed
      · exact .single ha (.inr h')
  | ack =>
      rcases hi.ack hin hs with ⟨hsame, -⟩ | ⟨e, bytes, hf, hneeds, ha, hret⟩
      · rw [hsame]
        exact h.followed
      · obtain ⟨a', ps, hb, -, h'⟩ := h.retire hi.txInv hf hneeds ha hret
        exact .single hb h'

/-! ## Something is always waited for -/

/-- An enumeration timeout is pending, or a frame that wants an ack is in
flight or on the first queue. -/
def Waiting (s : SricIf) : Prop :=
  (∃ id t, (id, Source.enum t) ∈ s.loop.live)
    ∨ ∃ e, (s.txFrame = some e ∨ e ∈ s.txq.q0) ∧ e.frame.needsAck = true

theorem Enumerates.waiting {s : SricIf} {a : EnumBus} (h : Enumerates s a) (hp : a.Phase)
    (hidle : s.enum.state ≠ .idle) (hen : s.enum.state ≠ .enumerated) : Waiting s := by
  rw [← h.enum] at hidle hen
  rcases hp.waits hidle hen with ⟨t, ht⟩ | ⟨f, hf, hneeds⟩
  · rw [h.timers] at ht
    obtain ⟨id, hid⟩ := MainLoop.pending_pos.mp ht
    exact .inl ⟨id, t, hid⟩
  · rw [h.queue, SricIf.unfinished] at hf
    obtain ⟨e, he, rfl⟩ := List.mem_map.mp hf
    refine .inr ⟨e, ?_, hneeds⟩
    rcases List.mem_append.mp he with he | he
    · exact .inl (Option.mem_toList.mp he)
    · exact .inr he

/-- What a state of the interface and one of the enumeration have in
common, before and after the end of the enumeration. -/
def Related (s : Link) (a : EnumBus) : Prop :=
  Inv FromNode s ∧ (Over s.sricIf ∨ Enumerates s.sricIf a)

theorem related_step (s : Link) (a : EnumBus) (ev : LinkEvent) (s' : Link) (out : List IfOut)
    (h : Related s a) (hin : s.InStep ev) (hs : step FromNode s ev = .ok (s', out)) :
    ∃ bs a' ps, run EnumBus.step a bs = .ok (a', ps) ∧ Related s' a' := by
  have hinv := inv_step s ev s' out h.1 hin hs
  rcases h.2 with hover | hen
  · exact ⟨[], a, [], rfl, hinv, .inl (hover.step h.1 hin hs)⟩
  · obtain ⟨bs, a', ps, hb, h'⟩ := hen.step h.1 hin hs
    exact ⟨bs, a', ps, hb, hinv, h'⟩

/-- **Enumeration never gets stuck**: as long as no ack is overtaken,
something is waited for in every state between its start and its end. -/
theorem enumeration_never_stuck {evs : List LinkEvent} {s : Link} {os : List IfOut}
    (hr : run (step FromNode) init evs = .ok (s, os)) (hin : Along (step FromNode) InStep init evs)
    (hidle : s.sricIf.enum.state ≠ .idle) (hen : s.sricIf.enum.state ≠ .enumerated) :
    Waiting s.sricIf := by
  obtain ⟨bs, a, ps, hb, -, hover | h⟩ :=
    run_simulates related_step ⟨inv_init, .inr (enumerates_init .reset)⟩ hin hr
  · exact absurd hover.2 hen
  · exact h.waiting (run_invariant EnumBus.phase_step (EnumBus.phase_init _) hb) hidle hen

/-- Enumeration up to the bus reset. -/
def untilReset : List LinkEvent :=
  .enumStart :: exchange 1 7 1 [] ++ exchange 4 7 1 [] ++ exchange 6 7 1 []
    ++ .killToken 2 :: exchange 8 8 1 []
    ++ (List.replicate 5 [.sendReset 9, .write 11 (some 7) none]).flatten
    ++ .sendReset 9 :: exchange 11 7 1 []

theorem enumeration_never_stuck_after_reset :
    ∃ s os, run (step FromNode) init untilReset = .ok (s, os)
      ∧ s.sricIf.enum.state = .enumerating ∧ Waiting s.sricIf := by
  have hrun : (run (step FromNode) init untilReset).toOption.any (fun p =>
      p.1.sricIf.enum.state == .enumerating) = true := by
    decide +kernel
  have hin : Along (step FromNode) InStep init untilReset := by
    decide +kernel
  obtain ⟨⟨s, os⟩, hr, hs⟩ := ok_of_any hrun
  have hst : s.sricIf.enum.state = .enumerating := beq_iff_eq.mp hs
  exact ⟨s, os, hr, hst, enumeration_never_stuck hr hin (by rw [hst]; decide) (by rw [hst]; decide)⟩

/-- REQ_TOKEN is sent twice, and answered twice; the second ack arrives
while HAVE_TOKEN, which was lost, is in flight. -/
def requestedTwice : List LinkEvent :=
  [.write 13 (some 7) (some (ackBytes 1 [])), .txTimeout 14,
    .write 15 (some 7) (some (ackBytes 1 [])), .ack, .write 17 (some 7) none, .ack]

theorem enumeration_stuck :
    ∃ s os, run (step FromNode) init (untilReset ++ requestedTwice) = .ok (s, os)
      ∧ s.sricIf.enum.state = .enumerating ∧ ¬Waiting s.sricIf ∧ s.sricIf.txq.q1 = [] := by
  have hrun : (run (step FromNode) init (untilReset ++ requestedTwice)).toOption.any (fun p =>
      p.1.sricIf.enum.state == .enumerating
        && (p.1.sricIf.loop.live.all fun l => !(l.2 matches .enum _))
        && p.1.sricIf.txFrame.isNone && p.1.sricIf.txq.q0.isEmpty
        && p.1.sricIf.txq.q1.isEmpty) = true := by
    decide +kernel
  obtain ⟨⟨s, os⟩, hr, hs⟩ := ok_of_any hrun
  simp only [Bool.and_eq_true, beq_iff_eq, List.all_eq_true, Option.isNone_iff_eq_none,
    List.isEmpty_iff] at hs
  obtain ⟨⟨⟨⟨hst, hlive⟩, hf⟩, hq0⟩, hq1⟩ := hs
  refine ⟨s, os, hr, hst, ?_, hq1⟩
  intro h
  rcases h with ⟨id, t, hl⟩ | ⟨e, he | he, -⟩
  · exact absurd (hlive _ hl) (by simp)
  · cases hf.symm.trans he
  · rw [hq0] at he
    cases he

end Link

end Sricd
