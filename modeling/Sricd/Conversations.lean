import Sricd.Halves
import Sricd.Order
import Sricd.Responses
import Sricd.Subscriptions

/-!
# Frames and the responses to them

A client has frames sent, each of which is to have a response. An ack that
comes in while a frame of the client is in flight, and not cancelled, is
the response to that frame. In any run of the daemon the responses reach the client in the order
in which it had the frames sent, and unless the client is timed out each
frame either has had its response or is still to be sent, or in flight
(`responses_in_order`).
-/

namespace Sricd

open Sricd.Lib

/-- The response that leaves the serial interface for a client. -/
def IfOut.responseTo (c : Nat) : IfOut → Option Frame
  | .pushRx (.client d) f => if d = c then some f else none
  | _ => none

/-- The frame that a client has sent. -/
def IpcOut.frameOf (c : Nat) : IpcOut → Option FrameT
  | .push f => if f.tag = .client c then some f else none
  | _ => none

/-- The frame that a client pushes in an event. -/
def IfEvent.frameOf (c : Nat) : IfEvent → List FrameT
  | .push f _ => if f.tag = .client c then [f] else []
  | _ => []

/-- The response that a call brings a client. -/
def ClientCall.responseTo (c : Nat) : ClientCall → List Frame
  | .push .rx d f => if d = c then [f] else []
  | _ => []

theorem ClientCall.responseTo_pushed (P : Platform) (c : Nat) (s : Ipc) (call : ClientCall) :
    Ipc.pushed P .rx c s call = call.responseTo c := by
  cases call with
  | push k d f =>
      cases k with
      | rx => simp [Ipc.pushed, responseTo]
      | note => simp [Ipc.pushed, responseTo]
  | dispatchNote note => rfl
  | _ => rfl

theorem IfOut.responseTo_calls (c : Nat) (os : List IfOut) :
    (os.flatMap IfOut.clientCalls).flatMap (ClientCall.responseTo c)
      = os.filterMap (IfOut.responseTo c) := by
  induction os with
  | nil => rfl
  | cons o os ih =>
      rw [List.flatMap_cons, List.flatMap_append, ih, List.filterMap_cons]
      cases o with
      | pushRx tag f =>
          cases tag with
          | client d =>
              show ClientCall.responseTo c (.push .rx d f) ++ [] ++ _ = _
              rw [List.append_nil, ClientCall.responseTo, IfOut.responseTo]
              split
              · rfl
              · rfl
          | null => rfl
          | badEnum => rfl
      | _ => rfl

namespace SricIf

/-- The responses of a step for a client, each with the frame in flight. -/
def responded (c : Nat) (s : SricIf) (ev : IfEvent) : List (FrameT × Frame) :=
  match s.txFrame, s.step ev with
  | some e, .ok (_, out) => (out.filterMap (IfOut.responseTo c)).map (e.frame, ·)
  | _, _ => []

/-- The acks that arrive while a frame of the client is in flight and not
cancelled, each with that frame. -/
def acknowledged (c : Nat) (s : SricIf) : IfEvent → List (FrameT × Frame)
  | .frame bytes =>
      match s.txFrame with
      | some e =>
          if IsAck bytes ∧ s.enumerated = true ∧ s.frameCancelled = false
              ∧ e.frame.tag = .client c then
            [(e.frame, frameOf (PackedFrame.ofBytes bytes) 0)]
          else []
      | none => []
  | _ => []

section
variable {s s' : SricIf} {ev : IfEvent} {out : List IfOut} {c : Nat}

theorem responded_none (hf : s.txFrame = none) : s.responded c ev = [] := by
  rw [responded, hf]

theorem responded_some {e : TxEntry} (hf : s.txFrame = some e) (hs : s.step ev = .ok (s', out)) :
    s.responded c ev = (out.filterMap (IfOut.responseTo c)).map (e.frame, ·) := by
  rw [responded, hf, hs]

theorem entering_frames (s : SricIf) (ev : IfEvent) (c : Nat) :
    (s.entering c ev).map TxEntry.frame = ev.frameOf c := by
  by_cases hpush : ∃ f pri, ev = .push f pri
  · obtain ⟨f, pri, rfl⟩ := hpush
    rw [entering, ofClient, IfEvent.frameOf]
    by_cases htag : f.tag = .client c
    · simp [pushes, allocated, htag]
    · simp [pushes, allocated, htag]
  · have hnone : ∀ f pri, ev ≠ .push f pri := fun f pri h => hpush ⟨f, pri, h⟩
    rw [entering_nil hnone]
    cases ev with
    | push f pri => exact absurd rfl (hnone f pri)
    | _ => rfl

/-- One of them for each response with the client's tag. -/
theorem responseTo_length (c : Nat) (out : List IfOut) :
    (out.filterMap (IfOut.responseTo c)).length = (responses out).count (.client c) := by
  induction out with
  | nil => rfl
  | cons o out ih =>
      cases o with
      | pushRx tag f =>
          have htags : responses (.pushRx tag f :: out) = tag :: responses out := rfl
          rw [htags, List.count_cons, List.filterMap_cons, ← ih]
          cases tag with
          | client d =>
              by_cases hd : d = c
              · simp [IfOut.responseTo, hd]
              · simp [IfOut.responseTo, hd]
          | null => rfl
          | badEnum => rfl
      | _ => exact ih

theorem responseTo_nil {out : List IfOut} (h : ∀ tag f, .pushRx tag f ∉ out) (c : Nat) :
    out.filterMap (IfOut.responseTo c) = [] := by
  apply List.filterMap_eq_nil_iff.mpr
  intro o ho
  cases o with
  | pushRx tag f => exact absurd ho (h tag f)
  | _ => rfl

theorem responded_frames (hi : TxInv s) (hs : s.step ev = .ok (s', out)) :
    (s.responded c ev).map Prod.snd = out.filterMap (IfOut.responseTo c) := by
  cases hf : s.txFrame with
  | some e =>
      rw [responded_some hf hs, List.map_map]
      exact List.map_id _
  | none =>
      rw [responded_none hf, responseTo_nil]
      · rfl
      · intro tag f ho
        obtain ⟨-, e, -, hflight, -⟩ := step_emits hi hs _ ho
        cases hf.symm.trans hflight

/-- What an ack of the frame in flight brings the client. -/
theorem retire_responseTo {bytes : List Byte} {e : TxEntry} (hf : s.txFrame = some e)
    (hack : IsAck bytes) (h : s.retire e (PackedFrame.ofBytes bytes) = .ok (s', out)) :
    (out.filterMap (IfOut.responseTo c)).map (e.frame, ·) = s.acknowledged c (.frame bytes) := by
  simp only [acknowledged, hf]
  rcases retire_cases hf h with ⟨hc, -, rfl⟩ | ⟨hc, hen, -, rfl⟩ | ⟨enum, as, more, -, hno, -, -, rfl⟩
  · rw [if_neg fun hx => absurd (hc.symm.trans hx.2.2.1) (by simp)]
    rfl
  · by_cases htag : e.frame.tag = .client c
    · rw [if_pos ⟨hack, hen, hc, htag⟩]
      simp [htag, IfOut.responseTo]
    · rw [if_neg fun hx => htag hx.2.2.2]
      cases ht : e.frame.tag with
      | client d =>
          have hd : d ≠ c := fun hd => htag (hd ▸ ht)
          simp [IfOut.responseTo, hd]
      | null => rfl
      | badEnum => rfl
  · have hnone : ∀ tag f, IfOut.pushRx tag f ∉ ({ s.acked with enum := enum }.acts as).2
        ++ (if more then [] else [.listen]) ++ [.free e.ptr] := by
      intro tag f ho
      rw [List.mem_append, List.mem_append] at ho
      rcases ho with (ho | ho) | ho
      · obtain ⟨i, t, heq⟩ := acts_out ho
        cases heq
      · cases more with
        | true => exact absurd ho List.not_mem_nil
        | false => exact absurd ho (by simp)
      · exact absurd ho (by simp)
    rw [responseTo_nil hnone]
    exact (if_neg fun hx => absurd (hno.symm.trans hx.2.1) (by simp)).symm

/-- **Every response is an ack** for the frame in flight, which has not
been cancelled, and every such ack is a response. -/
theorem responded_acknowledged (hi : TxInv s) (hs : s.step ev = .ok (s', out)) :
    s.responded c ev = s.acknowledged c ev := by
  cases hf : s.txFrame with
  | none =>
      rw [responded_none hf]
      cases ev with
      | frame bytes => rw [acknowledged, hf]
      | _ => rfl
  | some e =>
      rw [responded_some hf hs]
      by_cases hack : ∃ bytes, ev = .frame bytes ∧ IsAck bytes
      · obtain ⟨bytes, rfl, hack⟩ := hack
        have hret := (step_handle hs).2
        rw [handle, procRxFrame_ack hf hack.1 hack.2] at hret
        exact retire_responseTo hf hack hret
      · rw [responseTo_nil]
        · cases ev with
          | frame bytes =>
              rw [acknowledged, hf]
              exact (if_neg fun hx => hack ⟨bytes, rfl, hx.1⟩).symm
          | _ => rfl
        · intro tag f ho
          obtain ⟨bytes, -, hev, -, -, -, hme, ha⟩ := step_emits hi hs _ ho
          exact hack ⟨bytes, hev, hme, ha⟩

/-- A frame is acked in a step, or there is no response. -/
theorem Effect.acked_cases (h : Effect s ev s' out) :
    ((s.settled ev).filter fun p => p.1 == .acked) = [] ∧ responses out = []
      ∨ ∃ e, s.txFrame = some e ∧ s.settled ev = [(.acked, e)]
        ∧ responses out = if s.enumerated = true then [e.frame.tag] else [] := by
  have hnone {es : List TxEntry} :
      ((es.map (Fate.cancelled, ·)).filter fun p => p.1 == Fate.acked) = [] := by
    apply List.filter_eq_nil_iff.mpr
    intro p hp
    obtain ⟨e, -, rfl⟩ := List.mem_map.mp hp
    exact Bool.false_ne_true
  cases h with
  | pushed _ _ _ hfate _ hquiet => exact .inl ⟨by rw [hfate]; rfl, hquiet.1⟩
  | cancelled tag hev _ _ hquiet =>
      subst hev
      exact .inl ⟨hnone, hquiet.1⟩
  | wrote id w t e n _ _ _ _ _ hout hcase =>
      have hquiet : responses out = [] := by
        rw [hout]
        rfl
      rcases hcase with ⟨-, hfate⟩ | ⟨-, -, hfate⟩
      · exact .inl ⟨by rw [hfate]; rfl, hquiet⟩
      · exact .inl ⟨by rw [hfate]; rfl, hquiet⟩
  | timedOut id hev _ _ _ _ _ _ hquiet =>
      subst hev
      refine .inl ⟨?_, hquiet.1⟩
      rw [settled]
      split
      · exact hnone
      · rfl
  | acked e _ hf _ _ _ hfate hresp _ =>
      cases hc : s.frameCancelled with
      | true =>
          rw [hc] at hfate hresp
          exact .inl ⟨by rw [hfate]; rfl, hresp⟩
      | false =>
          rw [hc] at hfate hresp
          refine .inr ⟨e, hf, hfate, ?_⟩
          rw [hresp]
          exact if_congr ⟨fun h => h.2, fun h => ⟨rfl, h⟩⟩ rfl rfl

/-- **The frames that have had a response** are those that were acked. -/
theorem responded_requests (hi : TxInv s) (hs : s.step ev = .ok (s', out))
    (hover : ∀ e, s.txFrame = some e → e.frame.tag = .client c → s.enumerated = true) :
    (s.responded c ev).map Prod.fst = (s.answered c ev).map TxEntry.frame := by
  have hanswered : s.answered c ev
      = (((s.settled ev).filter fun p => p.1 == .acked).filter
          fun p => p.2.frame.tag == .client c).map Prod.snd := by
    rw [answered, leaving, List.filter_comm]
  have hlength := responseTo_length c out
  cases hf : s.txFrame with
  | none =>
      rcases (step_effect hi hs).acked_cases with ⟨hnone, -⟩ | ⟨e, hflight, -⟩
      · rw [responded_none hf, hanswered, hnone]
        rfl
      · cases hf.symm.trans hflight
  | some e =>
      have hfst : (s.responded c ev).map Prod.fst
          = List.replicate ((responses out).count (.client c)) e.frame := by
        rw [responded_some hf hs, List.map_map, ← hlength]
        exact List.map_const' ..
      rcases (step_effect hi hs).acked_cases with ⟨hnone, hresp⟩ | ⟨e', hflight, hfate, hresp⟩
      · rw [hfst, hanswered, hnone, hresp]
        rfl
      · obtain rfl := Option.some.inj (hf.symm.trans hflight)
        rw [hfst, hanswered, hfate, hresp]
        by_cases htag : e.frame.tag = .client c
        · simp [hover e hf htag, htag]
        · have hzero : (responses out).count (.client c) = 0 := by
            apply List.count_eq_zero.mpr
            rw [hresp]
            split
            · exact fun h => htag (List.mem_singleton.mp h).symm
            · exact List.not_mem_nil
          rw [← hresp, hzero]
          simp [htag]

end

end SricIf

/-! ## The daemon -/

namespace Daemon

/-- The responses of an event for a client, each with the frame that it is
to. -/
def responded (c : Nat) (s : Daemon) : DaemonEvent → List (FrameT × Frame)
  | .sricIf ev => s.sricIf.responded c ev
  | .ipc _ => []

/-- The acks that arrive while a frame of the client is in flight and not
cancelled, each with that frame. -/
def acknowledged (c : Nat) (s : Daemon) : DaemonEvent → List (FrameT × Frame)
  | .sricIf ev => s.sricIf.acknowledged c ev
  | .ipc _ => []

/-- The frames that a client has had sent. -/
def asked (c : Nat) (out : List DaemonOut) : List FrameT := (clientOuts out).filterMap (IpcOut.frameOf c)

/-- The frames of a client that are in flight, or wait to be sent. -/
def outstanding (c : Nat) (s : Daemon) : List FrameT := (s.sricIf.line c).map TxEntry.frame

theorem asked_append (c : Nat) (out out' : List DaemonOut) :
    asked c (out ++ out') = asked c out ++ asked c out' := by
  rw [asked, clientOuts_append, List.filterMap_append]
  rfl

section
variable {P : Platform} {s t : Daemon} {ev : DaemonEvent} {out : List DaemonOut}

/-- What the serial interface does by itself asks nothing of it. -/
theorem sricIf_quiet {ev : IfEvent} (hs : step P s (.sricIf ev) = .ok (t, out)) :
    ev.isCall = false ∧ ∀ f, .push f ∉ clientOuts out := by
  obtain ⟨os, ipc, outs, hcall, -, hi, -, rfl⟩ := sricIf_ok hs
  refine ⟨hcall, ?_⟩
  rw [clientOuts_append, clientOuts_sricIf, clientOuts_ipc, List.nil_append]
  exact (Ipc.calls_passive hi).2

/-- **What a client pushes** is at level 1, and wants an ack. -/
theorem ifEvents_ok (hs : step P s ev = .ok (t, out)) (c : Nat) :
    ∀ e ∈ s.ifEvents P ev, e.AtLevel ∧ e.Wants c
      ∧ (e = .cancel (.client c) → .cancel c ∈ clientOuts out) := by
  intro e he
  cases ev with
  | sricIf ev =>
      obtain rfl := List.mem_singleton.mp he
      have hcall := (sricIf_quiet hs).1
      cases e with
      | push f pri => cases hcall
      | cancel tag => cases hcall
      | _ => exact ⟨trivial, trivial, fun h => by cases h⟩
  | ipc ev =>
      obtain ⟨os, hi, -, rfl⟩ := ipc_ok hs
      rw [ifEvents, hi] at he
      obtain ⟨o, ho, he⟩ := List.mem_filterMap.mp he
      rw [clientOuts_append, clientOuts_sricIf, clientOuts_ipc, List.append_nil]
      cases o with
      | reply d r => cases he
      | push f =>
          cases he
          refine ⟨fun d htag => rfl, fun htag => ?_, fun h => by cases h⟩
          have h7 : f.address.testBit 7 = false :=
            Nat.testBit_lt_two_pow (Ipc.step_queues hi ho).1
          simp [FrameT.needsAck, FrameT.isAck, htag, h7]
      | cancel d =>
          cases he
          refine ⟨trivial, trivial, fun h => ?_⟩
          cases h
          exact ho

theorem frameOf_ifEvents (os : List IpcOut) (c : Nat) :
    (os.filterMap IpcOut.ifEvent).flatMap (IfEvent.frameOf c) = os.filterMap (IpcOut.frameOf c) := by
  induction os with
  | nil => rfl
  | cons o os ih =>
      cases o with
      | push f =>
          have hcons : (IpcOut.push f :: os).filterMap IpcOut.ifEvent
              = IfEvent.push f 1 :: os.filterMap IpcOut.ifEvent := rfl
          rw [hcons, List.flatMap_cons, ih, List.filterMap_cons, IfEvent.frameOf, IpcOut.frameOf]
          split
          · rfl
          · rfl
      | _ => exact ih

/-- **What a client has sent** is pushed for it. -/
theorem asked_eq (hs : step P s ev = .ok (t, out)) (c : Nat) :
    asked c out
      = (history SricIf.step (SricIf.entering c) s.sricIf (s.ifEvents P ev)).map TxEntry.frame := by
  obtain ⟨ps, hps⟩ := sricIf_runs P s ev t out hs
  rw [history_map, history_congr fun s e _ => SricIf.entering_frames s e c, history_flatMap _ hps]
  cases ev with
  | sricIf ev =>
      obtain ⟨hcall, hquiet⟩ := sricIf_quiet hs
      have hasked : asked c out = [] := by
        apply List.filterMap_eq_nil_iff.mpr
        intro o ho
        cases o with
        | push f => exact absurd ho (hquiet f)
        | _ => rfl
      rw [hasked, ifEvents, List.flatMap_singleton]
      cases ev with
      | push f pri => cases hcall
      | _ => rfl
  | ipc ev =>
      obtain ⟨os, hi, -, rfl⟩ := ipc_ok hs
      rw [ifEvents, hi, asked, clientOuts_append, clientOuts_sricIf, clientOuts_ipc, List.append_nil]
      exact (frameOf_ifEvents os c).symm

/-- **What is acked** has had a response. -/
theorem responded_eq {es : List TxEntry} {os : List DaemonOut} (h : Known es os s)
    (hs : step P s ev = .ok (t, out)) (c : Nat) :
    (s.responded c ev).map Prod.fst
      = (history SricIf.step (SricIf.answered c) s.sricIf (s.ifEvents P ev)).map TxEntry.frame := by
  cases ev with
  | sricIf ev =>
      obtain ⟨os', -, -, -, ht, -⟩ := sricIf_ok hs
      rw [ifEvents, history_single]
      apply SricIf.responded_requests h.inv.txInv ht
      intro e hf htag
      by_contra hno
      have hheld : e ∈ s.sricIf.held := by
        rw [SricIf.held, hf]
        exact List.mem_cons_self
      rcases h.own (Bool.eq_false_iff.mpr hno) hheld with hn | hb
      · cases hn.symm.trans htag
      · cases hb.symm.trans htag
  | ipc ev =>
      obtain ⟨os', hi, -, -⟩ := ipc_ok hs
      have hnone : history SricIf.step (SricIf.answered c) s.sricIf (s.ifEvents P (.ipc ev)) = [] := by
        obtain ⟨ps, hps⟩ := sricIf_runs P s (.ipc ev) t out hs
        have hcongr : history SricIf.step (SricIf.answered c) s.sricIf (s.ifEvents P (.ipc ev))
            = history SricIf.step (fun _ _ => []) s.sricIf (s.ifEvents P (.ipc ev)) := by
          apply history_congr
          intro u e he
          rw [ifEvents, hi] at he
          obtain ⟨o, -, he⟩ := List.mem_filterMap.mp he
          cases o with
          | reply d r => cases he
          | push f =>
              cases he
              rfl
          | cancel d =>
              cases he
              exact SricIf.answered_cancel c u _
        rw [hcongr, history_flatMap (fun _ => []) hps]
        exact List.flatMap_eq_nil_iff.mpr fun _ _ => rfl
      rw [hnone]
      rfl

/-- **What a client is pushed** is the responses for it. -/
theorem pushed_eq (h : s.sricIf.TxInv) (hs : step P s ev = .ok (t, out)) (c : Nat) :
    history (Ipc.perform P) (Ipc.pushed P .rx c) s.ipc (s.clientCalls ev)
      = (s.responded c ev).map Prod.snd := by
  obtain ⟨ps, hps⟩ := ipc_runs P s ev t out hs
  rw [history_congr fun u call _ => ClientCall.responseTo_pushed P c u call, history_flatMap _ hps]
  cases ev with
  | sricIf ev =>
      obtain ⟨os, -, -, -, ht, -⟩ := sricIf_ok hs
      rw [clientCalls, ht]
      exact (IfOut.responseTo_calls c os).trans (SricIf.responded_frames h ht).symm
  | ipc ev =>
      apply List.flatMap_eq_nil_iff.mpr
      intro call hcall
      have hbus := Ipc.eventCalls_fromBus hcall
      cases call with
      | push k d f => cases hbus
      | _ => rfl

end

section
variable {P : Platform} {evs : List DaemonEvent} {s : Daemon} {os : List DaemonOut} {c : Nat}

/-- **The responses are the acks** of the client's frames. -/
theorem responded_acknowledged {u : Daemon} (hu : u.sricIf.TxInv)
    (hr : run (step P) u evs = .ok (s, os)) (c : Nat) :
    history (step P) (responded c) u evs = history (step P) (acknowledged c) u evs := by
  refine history_congr_run (I := fun s => s.sricIf.TxInv) ?_ hu hr
  intro u ev u' out hi hs
  refine ⟨txInv_step hi hs, ?_⟩
  cases ev with
  | sricIf ev =>
      obtain ⟨os', -, -, -, ht, -⟩ := sricIf_ok hs
      exact SricIf.responded_acknowledged hi ht
  | ipc ev => rfl

/-- The responses that reach a live client. -/
theorem received_responses {cl : Client} (hr : run (step P) init evs = .ok (s, os))
    (hc : s.ipc.clients c = some cl) :
    history (step P) (received P .rx c) init evs ++ (cl.box .rx).q
      = (history (step P) (responded c) init evs).map Prod.snd := by
  obtain ⟨ps, hps⟩ := (ipc_runs P).run hr
  have hlaw := (Ipc.run_carries Ipc.mailInv_init hps).law .rx c fun hg => by
    cases hc.symm.trans hg.2
  rw [history_map, ← Ipc.queue_eq hc]
  have hreceived : history (Ipc.perform P) (Ipc.delivered P .rx c) init.ipc
      (history (step P) clientCalls init evs) = history (step P) (received P .rx c) init evs :=
    (ipc_runs P).history_eq _ hr
  rw [← hreceived]
  calc history (Ipc.perform P) (Ipc.delivered P .rx c) init.ipc
          (history (step P) clientCalls init evs) ++ s.ipc.queue .rx c
      = history (Ipc.perform P) (Ipc.pushed P .rx c) init.ipc
          (history (step P) clientCalls init evs) := hlaw
    _ = history (step P) (fun s ev => history (Ipc.perform P) (Ipc.pushed P .rx c) s.ipc
          (s.clientCalls ev)) init evs := (ipc_runs P).history_eq _ hr
    _ = history (step P) (fun s ev => (s.responded c ev).map Prod.snd) init evs := by
        refine history_congr_run (I := fun s => s.sricIf.TxInv) ?_ SricIf.txInv_init hr
        intro u ev u' out hi hs
        exact ⟨txInv_step hi hs, pushed_eq hi hs c⟩

/-- The frames that have had a response, at the serial interface. -/
theorem responded_frames (hr : run (step P) init evs = .ok (s, os)) :
    (history (step P) (responded c) init evs).map Prod.fst
      = (history SricIf.step (SricIf.answered c) init.sricIf
          (history (step P) (ifEvents P) init evs)).map TxEntry.frame := by
  rw [history_map, (sricIf_runs P).history_eq _ hr, history_map]
  refine history_congr_run (I := fun s => ∃ es os, Known es os s) ?_ ⟨[], [], known_init⟩ hr
  intro u ev u' out hk hs
  obtain ⟨es, os, hk⟩ := hk
  exact ⟨⟨_, _, known_step hk hs⟩, responded_eq hk hs c⟩

/-- The frames that a client has sent, at the serial interface. -/
theorem asked_frames (hr : run (step P) init evs = .ok (s, os)) :
    asked c os
      = (history SricIf.step (SricIf.entering c) init.sricIf
          (history (step P) (ifEvents P) init evs)).map TxEntry.frame := by
  rw [(sricIf_runs P).history_eq _ hr, history_map]
  refine run_notes (I := fun _ => True)
    (R := fun out frames => asked c out = frames) rfl ?_ ?_ trivial hr
  · intro a b x y ha hb
    rw [asked_append, ha, hb]
  · intro u ev u' out _ hs
    exact ⟨trivial, asked_eq hs c⟩

/-- A client's frames are cancelled where `ipc.c` has asked for it. -/
theorem cancelled_asked (hr : run (step P) init evs = .ok (s, os)) :
    ∀ e ∈ history (step P) (ifEvents P) init evs, e = .cancel (.client c) →
      .cancel c ∈ clientOuts os := by
  refine run_notes (I := fun _ => True)
    (R := fun out es => ∀ e ∈ es, e = IfEvent.cancel (.client c) → .cancel c ∈ clientOuts out)
    (fun e he => absurd he List.not_mem_nil) ?_ ?_ trivial hr
  · intro a b x y ha hb e he heq
    rw [clientOuts_append]
    rcases List.mem_append.mp he with he | he
    · exact List.mem_append_left _ (ha e he heq)
    · exact List.mem_append_right _ (hb e he heq)
  · intro u ev u' out _ hs
    exact ⟨trivial, fun e he => (ifEvents_ok hs c e he).2.2⟩

/-- What a client pushes in a run. -/
theorem run_ifEvents (hr : run (step P) init evs = .ok (s, os)) (c : Nat) :
    ∀ e ∈ history (step P) (ifEvents P) init evs, e.AtLevel ∧ e.Wants c := by
  refine forall_history ?_ hr
  intro u ev u' out hs e he
  obtain ⟨hlevel, hwants, -⟩ := ifEvents_ok hs c e he
  exact ⟨hlevel, hwants⟩

/-- **No frame of a client is lost** that is not timed out. -/
theorem none_lost (hr : run (step P) init evs = .ok (s, os)) (hcancel : .cancel c ∉ clientOuts os) :
    (history (step P) (responded c) init evs).map Prod.fst ++ outstanding c s = asked c os := by
  obtain ⟨ps, hps⟩ := (sricIf_runs P).run hr
  have hevents := run_ifEvents hr c
  have hnone : ∀ e ∈ history (step P) (ifEvents P) init evs, e ≠ .cancel (.client c) := by
    intro e he heq
    exact hcancel (cancelled_asked hr e he heq)
  have heq := SricIf.lined_eq SricIf.txInv_init SricIf.levelled_init (SricIf.uncancelled_init c)
    (SricIf.asks_init c)
    (fun e he => ⟨(hevents e he).1, (hevents e he).2, hnone e he⟩) hps
  rw [responded_frames hr, asked_frames hr, outstanding, ← List.map_append]
  exact congrArg _ heq

/-- **Responses in order.** In any run of the daemon, the responses are the
acks that arrive while a frame of the client is in flight, uncancelled, and
each goes with that frame. Those that have been sent to the client in
answer to its polls, and then those that wait for one, are all of them. The
frames that have had theirs, and then those in flight or queued, are among
the frames that the client has had sent, in this order. Unless it was timed
out, they are all of them. -/
theorem responses_in_order (hr : run (step P) init evs = .ok (s, os)) :
    history (step P) (responded c) init evs = history (step P) (acknowledged c) init evs
      ∧ (∀ cl, s.ipc.clients c = some cl →
        history (step P) (received P .rx c) init evs ++ (cl.box .rx).q
          = (history (step P) (responded c) init evs).map Prod.snd)
      ∧ ((history (step P) (responded c) init evs).map Prod.fst ++ outstanding c s).Sublist
        (asked c os)
      ∧ (.cancel c ∉ clientOuts os →
        (history (step P) (responded c) init evs).map Prod.fst ++ outstanding c s = asked c os) := by
  refine ⟨responded_acknowledged SricIf.txInv_init hr c, fun cl hc => received_responses hr hc, ?_,
    none_lost hr⟩
  obtain ⟨ps, hps⟩ := (sricIf_runs P).run hr
  have hsub := SricIf.lined_sublist SricIf.txInv_init SricIf.levelled_init
    (fun e he => (run_ifEvents hr c e he).1) c hps
  rw [responded_frames hr, asked_frames hr, outstanding, ← List.map_append]
  exact hsub.map _

end

/-- A client has two frames sent, the first of which is acked with a byte
and polled for. -/
def conversing : List DaemonEvent :=
  connected ++ [.ipc (.sent 0 (Request.tx 2 [1] (by decide)).bytes), .ipc (.incoming 2 0 0),
    .ipc (.sent 0 (Request.tx 2 [2, 3] (by decide)).bytes), .ipc (.incoming 2 0 0),
    .sricIf (.ifTx 33 (some 7)), .sricIf (.frame (ackBytes 2 [9])),
    .ipc (.sent 0 (Request.poll .rx 0).bytes), .ipc (.incoming 2 0 0)]

theorem responses_conversing :
    ∃ s os, run (step .x86) init conversing = .ok (s, os) ∧ .cancel 0 ∉ clientOuts os
      ∧ history (step .x86) (responded 0) init conversing
        = [(⟨.sric, 2, .client 0, [1], by decide⟩, ⟨2, 1, 0, [9]⟩)]
      ∧ (history (step .x86) (responded 0) init conversing).map Prod.fst ++ outstanding 0 s
        = asked 0 os := by
  obtain ⟨⟨s, os⟩, hr, hp⟩ := ok_of_any (r := run (step .x86) init conversing)
    (p := fun p => decide (.cancel 0 ∉ clientOuts p.2)) (by decide +kernel)
  have hcancel : .cancel 0 ∉ clientOuts os := of_decide_eq_true hp
  exact ⟨s, os, hr, hcancel, by decide +kernel, (responses_in_order hr).2.2.2 hcancel⟩

end Daemon

end Sricd
