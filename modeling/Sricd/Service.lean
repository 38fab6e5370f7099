import Sricd.DeviceTable
import Sricd.Halves

/-!
# Service begins with enumeration done

`ipc_listen` is called when enumeration is done, and not before. Until then
nothing that a client does reaches the daemon; from then on the device
table stays as enumeration has left it, and a client's frame goes to an
address that `device_exists` accepts (`served_when_enumerated`).
-/

namespace Sricd

open Sricd.Lib

/-! ## The serial interface while enumeration is going on -/

namespace Enum

/-- A move either goes on with enumeration, and adds no device, or ends it
with the reply to ADDR_INFO that was missing. -/
theorem Move.going {e e' : Enum} {ev : EnumEvent} {as : List EnumAction} (h : Move e ev e' as)
    (he : e.state ≠ .enumerated) :
    (e'.state ≠ .enumerated ∧ as.filterMap EnumAction.adds = [])
      ∨ (ev = .addrInfoAck ∧ e'.state = .enumerated) := by
  cases h with
  | stay => exact .inl ⟨he, rfl⟩
  | classesFetched hs hc => exact .inr ⟨rfl, rfl⟩
  | fetchNext hs hc => exact .inl ⟨he, rfl⟩
  | start | tokenCaught | busReset | devPresent | tokAtGw | gwAddrSet | addrSet | advanced =>
      exact .inl ⟨by simp, rfl⟩

theorem fsm_going {e e' : Enum} {ev : EnumEvent} {as : List EnumAction}
    (h : e.fsm ev = some (e', as)) (he : e.state ≠ .enumerated) (hev : ev ≠ .addrInfoAck) :
    e'.state ≠ .enumerated ∧ as.filterMap EnumAction.adds = [] := by
  rcases (fsm_move h).going he with hgo | ⟨hack, -⟩
  · exact hgo
  · exact absurd hack hev

end Enum

/-- A call that does nothing to the clients while none has connected. -/
def IfOut.idle : IfOut → Bool
  | .wrote _ | .free _ | .note _ => true
  | _ => false

namespace SricIf

/-- Enumeration is going on. -/
def Going (s : SricIf) : Prop := s.enumerated = false ∧ s.enum.state ≠ .enumerated

section
variable {s s' : SricIf} {out : List IfOut}

theorem Going.aside (h : s.Going) (ha : Aside s s') : s'.Going :=
  ⟨ha.enumerated.trans h.1, by rw [ha.enum]; exact h.2⟩

/-- What the enumeration asks for is frames and timeouts. -/
theorem acts_idle (s : SricIf) {as : List EnumAction} (h : as.filterMap EnumAction.adds = []) :
    ∀ o ∈ (s.acts as).2, o.idle = true := by
  intro o ho
  obtain ⟨i, t, rfl⟩ := acts_out ho
  have hmem : (i, t) ∈ (s.acts as).2.filterMap IfOut.adds := List.mem_filterMap.mpr ⟨_, ho, rfl⟩
  rw [acts_adds, h] at hmem
  cases hmem

theorem Going.enumStep (h : s.Going) {e : Enum} {as : List EnumAction}
    (hs : s.enumStep (some (e, as)) = .ok (s', out)) (he : e.state ≠ .enumerated)
    (has : as.filterMap EnumAction.adds = []) : s'.Going ∧ ∀ o ∈ out, o.idle = true := by
  obtain rfl : _ = s' := congrArg Prod.fst (Except.ok.inj hs)
  obtain rfl : ({ s with enum := e }.acts as).2 = out := congrArg Prod.snd (Except.ok.inj hs)
  obtain ⟨henum, hen, -⟩ := acts_same { s with enum := e } as
  exact ⟨⟨hen.trans h.1, by rw [henum]; exact he⟩, acts_idle _ has⟩

theorem Going.fsm (h : s.Going) {ev : EnumEvent} (hev : ev ≠ .addrInfoAck)
    (hs : s.enumStep (s.enum.fsm ev) = .ok (s', out)) : s'.Going ∧ ∀ o ∈ out, o.idle = true := by
  cases hr : s.enum.fsm ev with
  | none =>
      rw [hr] at hs
      cases hs
  | some r =>
      obtain ⟨e, as⟩ := r
      rw [hr] at hs
      obtain ⟨he, has⟩ := Enum.fsm_going hr h.2 hev
      exact h.enumStep hs he has

/-- An ack either is one more step of enumeration or the last one. -/
theorem Going.retire (hi : TxInv s) (h : s.Going) {e : TxEntry} {p : PackedFrame}
    (hf : s.txFrame = some e) (hs : s.retire e p = .ok (s', out)) :
    (s'.Going ∧ ∀ o ∈ out, o.idle = true) ∨ Link.Over s' := by
  have hacked := h.aside (acked_aside hi.toTxCore)
  rcases retire_cases hf hs with ⟨-, rfl, rfl⟩ | ⟨-, hen, -⟩ | ⟨enum, as, more, -, -, hrx, rfl, rfl⟩
  · refine .inl ⟨hacked, fun o ho => ?_⟩
    rw [List.mem_singleton.mp ho]
    rfl
  · exact absurd (hen.symm.trans h.1) (by simp)
  · obtain ⟨⟨enum', as'⟩, hd, heq⟩ := Option.map_eq_some_iff.mp hrx
    cases heq
    obtain ⟨henum, -, -⟩ := acts_same { s.acked with enum := enum } as
    by_cases hst : enum.state = .enumerated
    · refine .inr ⟨?_, ?_⟩
      · show (!(enum.state != .enumerated)) = true
        rw [hst]
        rfl
      · show ({ s.acked with enum := enum }.acts as).1.enum.state = _
        rw [henum]
        exact hst
    · have has : as.filterMap EnumAction.adds = [] := by
        rcases Enum.dispatch_cases hd with ⟨-, -, hs, hm⟩ | ⟨-, ⟨-, rfl⟩ | ⟨ev, hev, hm⟩⟩
        · have hs : (s.enum.record p).state = .fetchingClasses := hs
          rcases hm.going (by rw [hs]; decide) with hgo | ⟨-, hover⟩
          · exact hgo.2
          · exact absurd hover hst
        · rfl
        · rcases hm.going h.2 with hgo | ⟨-, hover⟩
          · exact hgo.2
          · exact absurd hover hst
      have hmore : (enum.state != .enumerated) = true := by simpa using hst
      rw [hmore]
      refine .inl ⟨⟨rfl, ?_⟩, fun o ho => ?_⟩
      · show ({ s.acked with enum := enum }.acts as).1.enum.state ≠ _
        rw [henum]
        exact hst
      · rw [if_pos rfl, List.append_nil] at ho
        rcases List.mem_append.mp ho with ho | ho
        · exact acts_idle _ has o ho
        · rw [List.mem_singleton.mp ho]
          rfl

/-- **A step while enumeration is going on** concerns no client, or is the
one that ends it. -/
theorem Going.step (hi : TxInv s) (h : s.Going) {ev : IfEvent} (hs : s.step ev = .ok (s', out)) :
    (s'.Going ∧ ∀ o ∈ out, o.idle = true) ∨ Link.Over s' := by
  obtain ⟨hlive, hh⟩ := step_handle hs
  cases ev with
  | enumStart => exact .inl (h.fsm (by decide) hh)
  | push f pri =>
      cases hh
      exact .inl ⟨h.aside (txqPush_aside _ _ _), fun _ ho => absurd ho List.not_mem_nil⟩
  | cancel tag =>
      obtain rfl : _ = s' := congrArg Prod.fst (Except.ok.inj hh)
      obtain rfl : (s.txqCancel tag).2 = out := congrArg Prod.snd (Except.ok.inj hh)
      refine .inl ⟨?_, fun o ho => ?_⟩
      · rw [txqCancel_rest]
        exact h
      · obtain ⟨p, -, rfl⟩ := List.mem_map.mp ho
        rfl
  | ifTx id w =>
      refine .inl ⟨h.aside (write_cases hi hs).1, ?_⟩
      simp only [handle] at hh
      split at hh
      · cases hh
      rename_i hx
      cases hh
      rcases ifTx_cases hi.toTxCore hx with ⟨-, -, rfl, -⟩ | ⟨t, e, n, -, -, -, rfl⟩
      · exact fun _ ho => absurd ho List.not_mem_nil
      · intro o ho
        rw [List.mem_singleton.mp ho]
        rfl
  | txTimeout id =>
      obtain rfl : _ = s' := congrArg Prod.fst (Except.ok.inj hh)
      obtain rfl : s.txTimeout.2 = out := congrArg Prod.snd (Except.ok.inj hh)
      refine .inl ⟨h.aside (txTimeout_aside (hlive _ rfl)), fun o ho => ?_⟩
      rw [txTimeout] at ho
      by_cases hc : s.frameCancelled = true
      · rw [if_pos hc] at ho
        obtain ⟨e, -, rfl⟩ := Option.map_eq_some_iff.mp (Option.mem_toList.mp ho)
        rfl
      · rw [if_neg hc] at ho
        cases ho
  | killToken id =>
      obtain ⟨u, hu, rfl⟩ := killToken_cases hh
      have hgo := h.fsm (by decide) hu
      exact .inl hgo
  | sendReset id =>
      obtain ⟨u, enum, as, again, hr, hu, rfl⟩ := sendReset_cases hh
      have henum : enum.state ≠ .enumerated ∧ as.filterMap EnumAction.adds = [] := by
        rw [Enum.sendResetTimeout] at hr
        split at hr
        · obtain ⟨⟨e', as'⟩, hfsm, heq⟩ := Option.map_eq_some_iff.mp hr
          cases heq
          exact Enum.fsm_going hfsm h.2 (by decide)
        · cases hr
          exact ⟨h.2, rfl⟩
      have hgo := h.enumStep hu henum.1 henum.2
      cases again <;> exact .inl hgo
  | frame bytes =>
      rcases procRxFrame_cases hh with ⟨rfl, rfl⟩ | ⟨-, rfl, hout⟩ | ⟨e, hf, -, hret⟩
      · exact .inl ⟨h, fun _ ho => absurd ho List.not_mem_nil⟩
      · refine .inl ⟨h.aside (txqPush_aside _ _ _), fun o ho => ?_⟩
        rcases hout with rfl | ⟨note, rfl⟩
        · cases ho
        · rw [List.mem_singleton.mp ho]
          rfl
      · exact h.retire hi hf hret

end

end SricIf

/-! ## The clients before the first connection -/

namespace Ipc

/-- Nothing can happen yet. -/
theorem init_disabled (P : Platform) (ev : IpcEvent) : init.step P ev = .error .disabled := by
  have hnone : ∀ p, p ∉ init.loop.live := fun _ h => absurd h List.not_mem_nil
  cases ev with
  | sent c bytes => simp [step, handle, IpcEvent.source, init]
  | closed c => simp [step, handle, IpcEvent.source, init]
  | _ => simp [step, IpcEvent.source, hnone]

/-- Nobody wants a note yet. -/
theorem init_calls {P : Platform} {os : List IfOut} (hos : ∀ o ∈ os, o.idle = true) {t : Ipc}
    {out : List IpcOut} (h : init.calls P os = .ok (t, out)) : t = init := by
  induction os generalizing out with
  | nil =>
      cases h
      rfl
  | cons o os ih =>
      obtain ⟨⟨u, o₁⟩, hu, h⟩ := bind_ok.mp h
      obtain ⟨⟨v, o₂⟩, hv, h⟩ := bind_ok.mp h
      cases h
      have hsame : u = init := by
        have hidle := hos o List.mem_cons_self
        cases o with
        | wrote | free =>
            cases hu
            rfl
        | note f =>
            rw [call, dispatchNote] at hu
            split at hu
            · cases hu
              rfl
            · cases hu
        | pushRx | deviceAdd | listen => cases hidle
      subst hsame
      exact ih (fun o ho => hos o (List.mem_cons_of_mem _ ho)) hv

section
variable {P : Platform} {s t : Ipc} {out : List IpcOut}

/-- **A frame that is queued is for a device in the table.** -/
theorem serve_push {c : Nat} {stale : BitVec 64} {heard : Heard}
    (h : heard.serve P s c stale = .ok (t, out)) {f : FrameT} (hf : .push f ∈ out) :
    s.devices.known P f.address = true := by
  have hflags : ∀ {device : Nat} {flags : BitVec 64} {u : Ipc} {o : List IpcOut},
      s.setFlags P c device flags = .ok (u, o) → .push f ∉ o := by
    intro device flags u o hu
    rcases setFlags_ok hu with ⟨-, -, rfl⟩ | ⟨-, -, rfl⟩ <;> simp
  cases heard with
  | nothing | overflow => cases h
  | malformed =>
      cases h
      simp at hf
  | cutFlags device =>
      obtain ⟨⟨u, o⟩, hu, h⟩ := bind_ok.mp h
      cases h
      exact absurd (by simpa using hf) (hflags hu)
  | request q =>
      cases q with
      | tx address payload hlt =>
          rw [Heard.serve, Request.serve] at h
          split at h
          · obtain ⟨b, hb, h⟩ := bind_ok.mp h
            cases b with
            | true =>
                cases h
                obtain rfl : f = _ := by simpa using hf
                exact (Devices.deviceExists_ok.mp hb).2
            | false =>
                cases h
                simp at hf
          · cases h
      | poll k timeout =>
          obtain ⟨cl, -, ⟨g, q, -, rfl, -⟩ | ⟨-, rfl, -⟩ | ⟨-, rfl, -⟩⟩ := poll_cases h <;>
            simp at hf
      | noteFlags device flags => exact absurd hf (hflags h)
      | noteClear =>
          obtain ⟨u, -, h⟩ := bind_ok.mp h
          cases h
          simp at hf
      | listDevices =>
          cases h
          simp at hf

theorem step_push {ev : IpcEvent} (h : s.step P ev = .ok (t, out)) {f : FrameT}
    (hf : .push f ∈ out) : s.devices.known P f.address = true := by
  obtain ⟨-, id, c, stale, rfl, -⟩ := step_queues h hf
  have hh := (step_handle h).2
  rw [handle] at hh
  cases hin : (s.sockets c).inbox with
  | nil =>
      rw [clientIncoming_end P hin] at hh
      split at hh
      · cases hh
        cases hf
      · cases hh
  | cons cmd inbox =>
      rw [clientIncoming_hear P hin] at hh
      exact serve_push (s := s.setSocket c _) hh hf

end

end Ipc

/-! ## The daemon -/

namespace Daemon

/-- An input is no reason any more to add a device. -/
theorem over_adds {e e' : Enum} {i : EnumInput} {as : List EnumAction}
    (h : e.step i = .ok (e', as)) (he : e.state = .enumerated) :
    as.filterMap EnumAction.adds = [] := by
  have hmove : ∀ (e₁ : Enum) (ev : EnumEvent), e₁.state = .enumerated → e₁.Move ev e' as →
      as.filterMap EnumAction.adds = [] := by
    intro e₁ ev he₁ hm
    rcases hm.types with ⟨-, hnone⟩ | ⟨hne, -⟩
    · exact hnone
    · exact absurd he₁ hne
  rcases Enum.step_cases h with ⟨f, -, -, hs, -⟩ | ⟨-, rc, ⟨-, has⟩ | ⟨ev, -, hm⟩⟩
  · cases hs.symm.trans he
  · rcases has with rfl | rfl <;> rfl
  · exact hmove { e with resetCount := rc } ev he hm

/-- **When enumeration is over, the table stays as it is.** -/
theorem frozen {P : Platform} {s s' : Daemon} {ev : DaemonEvent} {out : List DaemonOut}
    (h : Installed s) (hover : Link.Over s.sricIf) (hs : step P s ev = .ok (s', out)) :
    s'.ipc.devices.types = s.ipc.devices.types := by
  cases ev with
  | sricIf ev =>
      obtain ⟨os, ipc, outs, -, ht, hcalls, rfl, -⟩ := sricIf_ok hs
      have hadds : os.filterMap IfOut.adds = [] := by
        rcases SricIf.step_takes h.inv.txInv ht with ⟨-, hadds⟩ | ⟨i, as, hi, hadds⟩
        · exact hadds
        · rw [hadds, over_adds hi hover.2]
      funext a
      rw [Ipc.calls_types hcalls, hadds]
      rfl
  | ipc ev =>
      obtain ⟨os, hi, -, -⟩ := ipc_ok hs
      exact Ipc.step_types hi

/-- Whether a device is known depends on its type. -/
theorem known_congr {P : Platform} {d d' : Devices} (h : d'.types = d.types) (a : Nat) :
    d'.known P a = d.known P a := by
  rw [Devices.known, Devices.known, h]

/-- Either enumeration is going on and no client has connected; or it is
over, and the frames of the clients are for devices in the table. -/
def Serving (P : Platform) (s : Daemon) : Prop :=
  (s.sricIf.Going ∧ s.ipc = Ipc.init ∧ ∀ e ∈ s.sricIf.held, ∀ c, e.frame.tag ≠ .client c)
    ∨ (Link.Over s.sricIf ∧ ∀ e ∈ s.sricIf.held, ∀ c, e.frame.tag = .client c →
      s.ipc.devices.known P e.frame.address = true)

theorem serving_init (P : Platform) : Serving P init := by
  refine .inl ⟨⟨rfl, by decide⟩, rfl, fun e h => ?_⟩
  simp [init, SricIf.held, SricIf.init, TxQueue.entries, TxQueue.init] at h

/-- The serial interface queues no frame of a client by itself. -/
theorem held_sricIf {P : Platform} {s s' : Daemon} {ev : IfEvent} {out : List DaemonOut}
    (h : Inv s) (hs : step P s (.sricIf ev) = .ok (s', out)) {e : TxEntry}
    (he : e ∈ s'.sricIf.held) {c : Nat} (htag : e.frame.tag = .client c) : e ∈ s.sricIf.held := by
  obtain ⟨os, ipc, outs, hcall, ht, -⟩ := sricIf_ok hs
  rcases SricIf.mem_held_effect (SricIf.step_effect h.txInv ht) he with he | he
  · exact he
  · rcases SricIf.pushes_tag he with ⟨pri, rfl⟩ | hn | hb
    · cases hcall
    · cases htag.symm.trans hn
    · cases htag.symm.trans hb

/-- A client's frame comes from a request that was served. -/
theorem held_client {P : Platform} {s s' : Daemon} {ev : DaemonEvent} {out : List DaemonOut}
    (h : Inv s) (hs : step P s ev = .ok (s', out)) {e : TxEntry} (he : e ∈ s'.sricIf.held) {c : Nat}
    (htag : e.frame.tag = .client c) :
    e ∈ s.sricIf.held ∨ s.ipc.devices.known P e.frame.address = true := by
  cases ev with
  | sricIf ev => exact .inl (held_sricIf h hs he htag)
  | ipc ev =>
      obtain ⟨os, hi, ht, -⟩ := ipc_ok hs
      rw [ht] at he
      rcases SricIf.mem_held_calls he with he | he
      · exact .inl he
      · exact .inr (Ipc.step_push hi he)

/-- Enumeration stays over. -/
theorem over_step {P : Platform} {s s' : Daemon} {ev : DaemonEvent} {out : List DaemonOut}
    (h : s.sricIf.TxInv) (hover : Link.Over s.sricIf) (hs : step P s ev = .ok (s', out)) :
    Link.Over s'.sricIf := by
  obtain ⟨ps, hps⟩ := sricIf_runs P s ev s' out hs
  exact (run_invariant (I := fun s : SricIf => s.TxInv ∧ Link.Over s)
    (fun s ev s' out hi hs => ⟨hi.1.step hs, hi.2.sricIf_step hi.1 hs⟩) ⟨h, hover⟩ hps).2

theorem serving_step {P : Platform} {s s' : Daemon} {ev : DaemonEvent} {out : List DaemonOut}
    (hi : Installed s) (h : Serving P s) (hs : step P s ev = .ok (s', out)) : Serving P s' := by
  rcases h with ⟨hgo, hinit, hnone⟩ | ⟨hover, hknown⟩
  · cases ev with
    | ipc ev =>
        -- nobody has connected
        obtain ⟨os, hstep, -, -⟩ := ipc_ok hs
        rw [hinit, Ipc.init_disabled] at hstep
        cases hstep
    | sricIf ev =>
        have hnone' : ∀ e ∈ s'.sricIf.held, ∀ c, e.frame.tag ≠ .client c :=
          fun e he c htag => hnone e (held_sricIf hi.inv hs he htag) c htag
        obtain ⟨os, ipc, outs, -, ht, hcalls, hipc, -⟩ := sricIf_ok hs
        rcases hgo.step hi.inv.txInv ht with ⟨hgo', hidle⟩ | hover
        · rw [hinit] at hcalls
          exact .inl ⟨hgo', hipc.trans (Ipc.init_calls hidle hcalls), hnone'⟩
        · exact .inr ⟨hover, fun e he c htag => absurd htag (hnone' e he c)⟩
  · refine .inr ⟨over_step hi.inv.txInv hover hs, fun e he c htag => ?_⟩
    rw [known_congr (frozen hi hover hs)]
    rcases held_client hi.inv hs he htag with he | hk
    · exact hknown e he c htag
    · exact hk

/-- From then on, in any run. -/
theorem frozen_run {P : Platform} {s s' : Daemon} {evs : List DaemonEvent} {out : List DaemonOut}
    (hi : Installed s) (hover : Link.Over s.sricIf) (hr : run (step P) s evs = .ok (s', out)) :
    Link.Over s'.sricIf ∧ s'.ipc.devices.types = s.ipc.devices.types :=
  (run_invariant (I := fun t : Daemon => Installed t ∧ Link.Over t.sricIf
      ∧ t.ipc.devices.types = s.ipc.devices.types)
    (fun _ _ _ _ h hs => ⟨h.1.step hs, over_step h.1.inv.txInv h.2.1 hs,
      (frozen h.1 h.2.1 hs).trans h.2.2⟩) ⟨hi, hover, rfl⟩ hr).2

/-- A device that is known, where `char` is signed. -/
theorem Installed.address {P : Platform} {s : Daemon} (h : Installed s) (hP : P.charSigned = true)
    {a : Nat} (hk : s.ipc.devices.known P a = true) : a < 2 ∨ a < s.sricIf.enum.currentNextAddress
      ∧ s.sricIf.enum.deviceClasses a ≠ noDevice := by
  by_cases ha : a < 2
  · exact .inl ha
  · right
    have htype : s.ipc.devices.types a ≠ noDevice := by
      intro hno
      rw [Devices.known, hP, hno] at hk
      cases hk
    rw [h.types a (Nat.not_lt.mp ha), Enum.types] at htype
    by_cases hin : s.sricIf.enum.state = .enumerated ∧ a < s.sricIf.enum.currentNextAddress
    · rw [if_pos hin] at htype
      exact ⟨hin.2, htype⟩
    · rw [if_neg hin] at htype
      exact absurd rfl htype

end Daemon

end Sricd
