import Sricd.Effects

/-!
# The serial interface on a bus

The transmit side together with the acks that are on their way back to it.
A transmission of a frame that wants an ack is lost, or answered with one
ack; acks arrive in order, after any delay. `proc_rx_frame` takes whatever
ack arrives for one to the frame in flight. It is, in every run in which
the acks for a frame arrive before the next frame is sent
(`acks_attributed`).
-/

namespace Sricd

open Sricd.Lib

/-- The transmit side, and the acks on their way: the entry whose
transmission is answered, and the received bytes. -/
structure Link where
  sricIf : SricIf
  acks : List (TxEntry × List Byte)

inductive LinkEvent where
  | enumStart
  /-- a client queues a frame -/
  | request (c : Nat) (f : FrameT)
  /-- a client gives up its frames -/
  | cancel (c : Nat)
  /-- `if_tx`; where it completes a transmission, the answer of the bus -/
  | write (id : Nat) (w : Option Nat) (answer : Option (List Byte))
  | txTimeout (id : Nat)
  | killToken (id : Nat)
  | sendReset (id : Nat)
  /-- a frame that is no ack for us is received -/
  | received (bytes : List Byte)
  /-- the oldest ack arrives -/
  | ack
deriving DecidableEq

/-- `bytes` are an ack for us. -/
def IsAck (bytes : List Byte) : Prop :=
  (PackedFrame.ofBytes bytes).forMe = true ∧ (PackedFrame.ofBytes bytes).isAck = true

instance (bytes : List Byte) : Decidable (IsAck bytes) := inferInstanceAs (Decidable (_ ∧ _))

namespace Link

def init : Link where
  sricIf := .init
  acks := []

/-- An event of the transmit side, with the acks that are on their way
after it. -/
def call (s : Link) (ev : IfEvent) (acks : List (TxEntry × List Byte)) :
    Except Halt (Link × List IfOut) :=
  match s.sricIf.step ev with
  | .error h => .error h
  | .ok (t, out) => .ok (⟨t, acks⟩, out)

/-- One event, on a bus where `A f p` says that `p` may be the answer to
the frame `f`. -/
def step (A : FrameT → PackedFrame → Prop) [∀ f p, Decidable (A f p)] (s : Link) :
    LinkEvent → Except Halt (Link × List IfOut)
  | .enumStart => s.call .enumStart s.acks
  | .request c f => s.call (.push { f with tag := .client c } 1) s.acks
  | .cancel c => s.call (.cancel (.client c)) s.acks
  | .write id w none => s.call (.ifTx id w) s.acks
  | .write id w (some bytes) =>
      match s.sricIf.step (.ifTx id w) with
      | .error h => .error h
      | .ok (t, out) =>
          match s.sricIf.completed t with
          | none => .error .disabled
          | some e =>
              if IsAck bytes ∧ A e.frame (PackedFrame.ofBytes bytes) then
                .ok (⟨t, s.acks ++ [(e, bytes)]⟩, out)
              else .error .disabled
  | .txTimeout id => s.call (.txTimeout id) s.acks
  | .killToken id => s.call (.killToken id) s.acks
  | .sendReset id => s.call (.sendReset id) s.acks
  | .received bytes => if IsAck bytes then .error .disabled else s.call (.frame bytes) s.acks
  | .ack =>
      match s.acks with
      | [] => .error .disabled
      | (_, bytes) :: rest => s.call (.frame bytes) rest

/-- No ack is overtaken: `next_tx` takes no frame that wants an ack while
one is on its way, and none arrives while a frame that wants none is being
written. -/
def InStep (s : Link) : LinkEvent → Prop
  | .write _ _ _ => s.sricIf.txFrame = none →
      ∀ p ∈ s.sricIf.txq.next (if s.sricIf.enumerated then 1 else 0),
        p.1.frame.needsAck = true → s.acks = []
  | .ack => ∀ e ∈ s.sricIf.txFrame, e.frame.needsAck = true
  | _ => True

instance (s : Link) (ev : LinkEvent) : Decidable (s.InStep ev) := by
  unfold InStep
  split <;> infer_instance

end Link

/-! ## Acks are attributed -/

namespace Link

variable {A : FrameT → PackedFrame → Prop}

/-- The acks on their way are acks for the frame in flight, if that wants
one. -/
structure Inv (A : FrameT → PackedFrame → Prop) (s : Link) : Prop where
  txInv : s.sricIf.TxInv
  acks : ∀ p ∈ s.acks, p.1.frame.needsAck = true ∧ IsAck p.2
    ∧ A p.1.frame (PackedFrame.ofBytes p.2)
  inFlight : ∀ p ∈ s.acks, ∀ e, s.sricIf.txFrame = some e → e.frame.needsAck = true → e = p.1

theorem inv_init : Inv A init :=
  ⟨SricIf.txInv_init, fun _ h => absurd h List.not_mem_nil, fun _ h => absurd h List.not_mem_nil⟩

theorem call_ok {s s' : Link} {ev : IfEvent} {acks : List (TxEntry × List Byte)}
    {out : List IfOut} (h : s.call ev acks = .ok (s', out)) :
    ∃ t, s.sricIf.step ev = .ok (t, out) ∧ s' = ⟨t, acks⟩ := by
  rw [call] at h
  split at h
  · cases h
  · rename_i t out' hs
    cases h
    exact ⟨t, hs, rfl⟩

theorem write_ok [∀ f p, Decidable (A f p)] {s s' : Link} {id : Nat} {w : Option Nat}
    {answer : Option (List Byte)} {out : List IfOut}
    (h : step A s (.write id w answer) = .ok (s', out)) :
    ∃ t, s.sricIf.step (.ifTx id w) = .ok (t, out)
      ∧ ((answer = none ∧ s' = ⟨t, s.acks⟩)
        ∨ ∃ bytes e, answer = some bytes ∧ s.sricIf.completed t = some e ∧ IsAck bytes
          ∧ A e.frame (PackedFrame.ofBytes bytes) ∧ s' = ⟨t, s.acks ++ [(e, bytes)]⟩) := by
  cases answer with
  | none =>
      rw [step] at h
      obtain ⟨t, ht, rfl⟩ := call_ok h
      exact ⟨t, ht, .inl ⟨rfl, rfl⟩⟩
  | some bytes =>
      rw [step] at h
      split at h
      · cases h
      rename_i t out' ht
      split at h
      · cases h
      rename_i e he
      split at h
      · rename_i ha
        cases h
        exact ⟨t, ht, .inr ⟨bytes, e, rfl, he, ha.1, ha.2, rfl⟩⟩
      · cases h

/-- No other frame comes into flight. -/
theorem Inv.keep {s : Link} {t : SricIf} {ev : IfEvent} {out : List IfOut}
    {acks : List (TxEntry × List Byte)} (h : Inv A s) (hs : s.sricIf.step ev = .ok (t, out))
    (hev : ∀ id w, ev ≠ .ifTx id w) (hacks : acks ⊆ s.acks) : Inv A ⟨t, acks⟩ := by
  refine ⟨h.txInv.step hs, fun p hp => h.acks p (hacks hp), ?_⟩
  intro p hp e he
  apply h.inFlight p (hacks hp) e
  rcases (SricIf.step_effect h.txInv hs).txFrame hev with hf | hf
  · exact hf.symm.trans he
  · cases hf.symm.trans he

theorem ack_ok [∀ f p, Decidable (A f p)] {s s' : Link} {out : List IfOut}
    (h : step A s .ack = .ok (s', out)) :
    ∃ e bytes rest t, s.acks = (e, bytes) :: rest
      ∧ s.sricIf.step (.frame bytes) = .ok (t, out) ∧ s' = ⟨t, rest⟩ := by
  rw [step] at h
  split at h
  · cases h
  · rename_i e bytes rest hacks
    obtain ⟨t, ht, rfl⟩ := call_ok h
    exact ⟨e, bytes, rest, t, hacks, ht, rfl⟩

/-- An ack that arrives is discarded, or it is one for the frame in flight
and retires it. -/
theorem Inv.ack [∀ f p, Decidable (A f p)] {s s' : Link} {out : List IfOut} (h : Inv A s)
    (hin : s.InStep .ack) (hs : step A s .ack = .ok (s', out)) :
    (s'.sricIf = s.sricIf ∧ out = [])
      ∨ ∃ e bytes, s.sricIf.txFrame = some e ∧ e.frame.needsAck = true
        ∧ A e.frame (PackedFrame.ofBytes bytes)
        ∧ s.sricIf.retire e (PackedFrame.ofBytes bytes) = .ok (s'.sricIf, out) := by
  obtain ⟨e, bytes, rest, t, hacks, ht, rfl⟩ := ack_ok hs
  have hmem : (e, bytes) ∈ s.acks := by
    rw [hacks]
    exact List.mem_cons_self
  obtain ⟨-, hack, ha⟩ := h.acks _ hmem
  rcases SricIf.procRxFrame_cases (SricIf.step_handle ht).2 with ⟨rfl, rfl⟩ | ⟨hno, -⟩ |
      ⟨e', hf, -, hret⟩
  · exact .inl ⟨rfl, rfl⟩
  · exact absurd (hno.symm.trans hack.2) (by simp)
  · have hneeds := hin e' hf
    obtain rfl := h.inFlight _ hmem e' hf hneeds
    exact .inr ⟨e', bytes, hf, hneeds, ha, hret⟩

/-- The frame in flight behind a call of `if_tx` was so before, or there
are no acks on their way. -/
theorem origin_acks {s : Link} {t : SricIf} {id : Nat} {w : Option Nat}
    {answer : Option (List Byte)} {e : TxEntry}
    (hin : s.InStep (.write id w answer)) (ho : SricIf.Origin s.sricIf t e)
    (hneeds : e.frame.needsAck = true) : s.sricIf.txFrame = some e ∨ s.acks = [] := by
  rcases ho with ⟨hf, -⟩ | ⟨hf, hn⟩
  · exact .inl hf
  · exact .inr (hin hf _ hn hneeds)

/-- **Every event keeps the invariant**, as long as no ack is overtaken. -/
theorem inv_step [∀ f p, Decidable (A f p)] (s : Link) (ev : LinkEvent) (s' : Link)
    (out : List IfOut) (h : Inv A s) (hin : s.InStep ev) (hs : step A s ev = .ok (s', out)) :
    Inv A s' := by
  cases ev with
  | enumStart =>
      obtain ⟨t, ht, rfl⟩ := call_ok hs
      exact h.keep ht (by simp) fun _ hp => hp
  | request c f =>
      rw [step] at hs
      obtain ⟨t, ht, rfl⟩ := call_ok hs
      exact h.keep ht (by simp) fun _ hp => hp
  | cancel c =>
      rw [step] at hs
      obtain ⟨t, ht, rfl⟩ := call_ok hs
      exact h.keep ht (by simp) fun _ hp => hp
  | write id w answer =>
      obtain ⟨t, ht, hanswer⟩ := write_ok hs
      have hinv := h.txInv.step ht
      obtain ⟨-, hcases⟩ := SricIf.write_cases h.txInv ht
      have hold : ∀ p ∈ s.acks, ∀ e, t.txFrame = some e → e.frame.needsAck = true → e = p.1 := by
        intro p hp e he hneeds
        rcases hcases with ⟨-, hf, -⟩ | ⟨e', horigin, hcase⟩
        · exact h.inFlight p hp e (hf.symm.trans he) hneeds
        · obtain rfl : e' = e := by
            rcases hcase with ⟨-, hf⟩ | ⟨-, hf, -⟩ | ⟨-, hf, -⟩
            · exact Option.some.inj (hf.symm.trans he)
            · exact Option.some.inj (hf.symm.trans he)
            · cases hf.symm.trans he
          rcases origin_acks hin horigin hneeds with hf | hnil
          · exact h.inFlight p hp e' hf hneeds
          · rw [hnil] at hp
            cases hp
      rcases hanswer with ⟨-, rfl⟩ | ⟨bytes, e, -, he, hack, ha, rfl⟩
      · exact ⟨hinv, h.acks, hold⟩
      · -- the frame that is answered is the one in flight
        have hf : t.txFrame = some e ∧ e.frame.needsAck = true := by
          rcases hcases with ⟨hno, -⟩ | ⟨e', -, ⟨hno, -⟩ | ⟨hc, hf, hneeds⟩ | ⟨hno, -⟩⟩
          · cases he.symm.trans hno
          · cases he.symm.trans hno
          · cases he.symm.trans hc
            exact ⟨hf, hneeds⟩
          · cases he.symm.trans hno
        refine ⟨hinv, ?_, ?_⟩
        · intro p hp
          rcases List.mem_append.mp hp with hp | hp
          · exact h.acks p hp
          · rw [List.mem_singleton.mp hp]
            exact ⟨hf.2, hack, ha⟩
        · intro p hp e' he' hneeds
          rcases List.mem_append.mp hp with hp | hp
          · exact hold p hp e' he' hneeds
          · rw [List.mem_singleton.mp hp]
            exact Option.some.inj (he'.symm.trans hf.1)
  | txTimeout id =>
      rw [step] at hs
      obtain ⟨t, ht, rfl⟩ := call_ok hs
      exact h.keep ht (by simp) fun _ hp => hp
  | killToken id =>
      rw [step] at hs
      obtain ⟨t, ht, rfl⟩ := call_ok hs
      exact h.keep ht (by simp) fun _ hp => hp
  | sendReset id =>
      rw [step] at hs
      obtain ⟨t, ht, rfl⟩ := call_ok hs
      exact h.keep ht (by simp) fun _ hp => hp
  | received bytes =>
      rw [step] at hs
      split at hs
      · cases hs
      · obtain ⟨t, ht, rfl⟩ := call_ok hs
        exact h.keep ht (by simp) fun _ hp => hp
  | ack =>
      obtain ⟨e, bytes, rest, t, hacks, ht, rfl⟩ := ack_ok hs
      exact h.keep ht (by simp) fun p hp => hacks ▸ List.mem_cons_of_mem _ hp

theorem inv_run [∀ f p, Decidable (A f p)] {evs : List LinkEvent} {s : Link} {out : List IfOut}
    (hr : run (step A) init evs = .ok (s, out)) (hin : Along (step A) InStep init evs) :
    Inv A s :=
  run_invariant_along inv_step inv_init hin hr

/-- The answers of a bus on which only the device addressed answers. -/
def FromAddressee (f : FrameT) (p : PackedFrame) : Prop :=
  f.address % 128 ≠ 0 → p.source = f.address % 128

instance (f : FrameT) (p : PackedFrame) : Decidable (FromAddressee f p) :=
  inferInstanceAs (Decidable (_ → _))

/-- Responses come out of `proc_rx_frame` only, on an ack. -/
theorem pushRx_ack [∀ f p, Decidable (A f p)] {s s' : Link} {ev : LinkEvent} {out : List IfOut}
    (h : s.sricIf.TxInv) (hs : step A s ev = .ok (s', out)) {tag : Tag} {f : Frame}
    (hm : .pushRx tag f ∈ out) : ev = .ack := by
  have hcall : ∀ {iev t acks}, s.call iev acks = .ok (t, out) →
      ∃ bytes, iev = .frame bytes ∧ IsAck bytes := by
    intro iev t acks ht
    obtain ⟨u, hu, -⟩ := call_ok ht
    obtain ⟨bytes, e, rfl, -, -, -, hack⟩ := SricIf.step_emits h hu _ hm
    exact ⟨bytes, rfl, hack⟩
  cases ev with
  | ack => rfl
  | enumStart | request | cancel | txTimeout | killToken | sendReset =>
      rw [step] at hs
      obtain ⟨_, hev, -⟩ := hcall hs
      cases hev
  | write id w answer =>
      obtain ⟨t, ht, -⟩ := write_ok hs
      obtain ⟨_, _, hev, -⟩ := SricIf.step_emits h ht _ hm
      cases hev
  | received bytes =>
      rw [step] at hs
      split at hs
      · cases hs
      · rename_i hnot
        obtain ⟨_, hev, hack⟩ := hcall hs
        cases hev
        exact absurd hack hnot

/-- The ack that arrives is one for the frame in flight, if there is one,
and what is passed on to a client is the response to its own frame. -/
def Attributed (s : Link) (ev : LinkEvent) (out : List IfOut) : Prop :=
  (ev = .ack → ∀ e bytes rest, s.acks = (e, bytes) :: rest →
    ∀ e', s.sricIf.txFrame = some e' → e'.ptr = e.ptr)
  ∧ ∀ tag f, .pushRx tag f ∈ out → ∃ e, s.sricIf.txFrame = some e ∧ e.frame.tag = tag
      ∧ (e.frame.address % 128 ≠ 0 → f.sourceAddress.toNat = e.frame.address % 128)

/-- **Acks are attributed**: in a run in which no ack is overtaken, an ack
retires no frame but the one it is for, and no client gets a response
from another device than the one it wrote to. -/
theorem acks_attributed {evs : List LinkEvent} {s s' : Link} {ev : LinkEvent} {os out : List IfOut}
    (hr : run (step FromAddressee) init evs = .ok (s, os))
    (hin : Along (step FromAddressee) InStep init (evs ++ [ev]))
    (hs : step FromAddressee s ev = .ok (s', out)) : Attributed s ev out := by
  have hinv := inv_run hr (along_init hin)
  have hstep : s.InStep ev := along_at hin hr
  constructor
  · intro hx e bytes rest hacks e' he'
    obtain rfl := hx
    have hmem : (e, bytes) ∈ s.acks := by
      rw [hacks]
      exact List.mem_cons_self
    exact congrArg TxEntry.ptr (hinv.inFlight _ hmem e' he' (hstep e' he'))
  · intro tag f hm
    obtain rfl := pushRx_ack hinv.txInv hs hm
    rcases hinv.ack hstep hs with ⟨-, rfl⟩ | ⟨e, bytes, hf, -, ha, hret⟩
    · cases hm
    · rcases SricIf.retire_out hf hret hm with heq | ⟨i, t, heq⟩ | heq | heq <;> cases heq
      exact ⟨e, hf, rfl, ha⟩

/-- A frame is written, in `w` bytes, and its ack arrives at once. -/
def exchange (id w : Nat) (source : Byte) (payload : List Byte) : List LinkEvent :=
  [.write id (some w) (some (ackBytes source payload)), .ack]

/-- The enumeration of a bus with one device. -/
def oneDevice : List LinkEvent :=
  Sricd.oneDevice .enumStart .killToken .sendReset (fun id => .write id (some 7) none) exchange

/-- A frame of one byte. -/
def byteTo (address : Nat) : FrameT := ⟨.sric, address, .null, [1], by decide⟩

/-- Client 7 writes to device 2. The first transmission is lost, and the
second is answered. -/
def answeredOnce : List LinkEvent :=
  [.request 7 (byteTo 2), .write 33 (some 7) none, .txTimeout 34,
    .write 35 (some 7) (some (ackBytes 2 []))]

theorem acks_attributed_once :
    ∃ s os s' out, run (step FromAddressee) init (oneDevice ++ answeredOnce) = .ok (s, os)
      ∧ step FromAddressee s .ack = .ok (s', out) ∧ Attributed s .ack out := by
  have hrun : (run (step FromAddressee) init (oneDevice ++ answeredOnce)).toOption.any (fun p =>
      (step FromAddressee p.1 .ack).toOption.any fun _ => true) = true := by
    decide +kernel
  have hin : Along (step FromAddressee) InStep init ((oneDevice ++ answeredOnce) ++ [.ack]) := by
    decide +kernel
  obtain ⟨⟨s, os⟩, hr, hs⟩ := ok_of_any hrun
  obtain ⟨⟨s', out⟩, hack, -⟩ := ok_of_any hs
  exact ⟨s, os, s', out, hr, hack, acks_attributed hr hin hack⟩

/-- Client 7 writes to device 2 and client 8 to device 3. The frame of
client 7 is sent twice, and answered twice. -/
def answeredTwice : List LinkEvent :=
  [.request 7 (byteTo 2), .request 8 (byteTo 3), .write 33 (some 7) (some (ackBytes 2 [])),
    .txTimeout 34, .write 35 (some 7) (some (ackBytes 2 [])), .ack, .write 37 (some 7) none]

theorem acks_misattributed :
    ∃ s os s' out, run (step FromAddressee) init (oneDevice ++ answeredTwice) = .ok (s, os)
      ∧ step FromAddressee s .ack = .ok (s', out) ∧ ¬Attributed s .ack out := by
  have hrun : (run (step FromAddressee) init (oneDevice ++ answeredTwice)).toOption.any (fun p =>
      (step FromAddressee p.1 .ack).toOption.any fun q =>
        p.1.sricIf.txFrame.any (fun e => e.frame.address == 3)
          && decide (.pushRx (.client 8) ⟨2, 1, 0, []⟩ ∈ q.2)) = true := by
    decide +kernel
  obtain ⟨⟨s, os⟩, hr, hs⟩ := ok_of_any hrun
  obtain ⟨⟨s', out⟩, hack, hout⟩ := ok_of_any hs
  simp only [Bool.and_eq_true, Option.any_eq_true, beq_iff_eq, decide_eq_true_eq] at hout
  obtain ⟨⟨e, he, ha⟩, ho⟩ := hout
  refine ⟨s, os, s', out, hr, hack, ?_⟩
  intro h
  obtain ⟨e', he', -, hsrc⟩ := h.2 _ _ ho
  cases he.symm.trans he'
  rw [ha] at hsrc
  exact absurd (hsrc (by decide)) (by show ¬(2 : Byte).toNat = 3 % 128; decide)

end Link

end Sricd
