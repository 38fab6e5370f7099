import Sricd.EnumLink
import Sricd.Ledger
import Sricd.Lifetimes

/-!
# Who gets the responses

The tag of the frame in flight is `NULL` for the daemon's own acks and
resets, a constant for the frames of the enumeration, and else a client;
an ack hands it on as a client in each case. The responses go to clients
in exactly the runs in which no ack finds one of the daemon's own frames
in flight (`responses_to_clients_iff`).
-/

namespace Sricd

open Sricd.Lib

/-! ## The end of enumeration -/

namespace Enum

/-- The last move of the enumeration pushes nothing. -/
theorem Move.ended {e e' : Enum} {ev : EnumEvent} {as : List EnumAction} (h : Move e ev e' as)
    (hover : e'.state = .enumerated) : as.filterMap EnumAction.frame = [] := by
  cases h with
  | stay => rfl
  | classesFetched =>
      apply List.filterMap_eq_nil_iff.mpr
      intro a ha
      obtain ⟨i, -, rfl⟩ := List.mem_map.mp ha
      rfl
  | fetchNext hs => exact absurd (hs.symm.trans hover) (by simp)
  | _ => cases hover

theorem dispatch_over {e e' : Enum} {p : PackedFrame} {as : List EnumAction}
    (h : e.dispatch p = some (e', as)) (hover : e'.state = .enumerated) :
    as.filterMap EnumAction.frame = [] := by
  rcases dispatch_cases h with ⟨-, -, -, hm⟩ | ⟨-, ⟨-, rfl⟩ | ⟨ev, -, hm⟩⟩
  · exact hm.ended hover
  · rfl
  · exact hm.ended hover

end Enum

namespace SricIf

theorem enumStep_going {s s' : SricIf} {r : Option (Enum × List EnumAction)} {out : List IfOut}
    (h : s.enumStep r = .ok (s', out)) : s'.enumerated = s.enumerated ∧ .listen ∉ out := by
  constructor
  · cases r with
    | none => cases h
    | some p =>
        obtain rfl : _ = s' := congrArg Prod.fst (Except.ok.inj h)
        exact (acts_same { s with enum := p.1 } p.2).2.1
  · intro hl
    obtain ⟨i, t, ho⟩ := enumStep_out h hl
    cases ho

/-- Enumeration ends with an ack: nothing is in flight then, and what is
queued has been queued before. -/
structure Ends (s s' : SricIf) : Prop where
  ended : Link.Over s'
  queued : ∀ e ∈ s'.held, e ∈ s.txq.entries

/-- What an ack does to the enumeration. -/
theorem retire_going {s s' : SricIf} {e : TxEntry} {p : PackedFrame} {out : List IfOut}
    (hno : s.enumerated = false) (hf : s.txFrame = some e)
    (h : s.retire e p = .ok (s', out)) :
    (s'.enumerated = false ∧ .listen ∉ out) ∨ Ends s s' := by
  rcases retire_cases hf h with ⟨-, rfl, rfl⟩ | ⟨-, hen, -⟩ | ⟨enum, as, more, -, -, hrx, rfl, rfl⟩
  · refine .inl ⟨?_, by simp⟩
    rw [acked, txReady_rest]
    exact hno
  · exact absurd (hno.symm.trans hen) (by simp)
  · obtain ⟨⟨enum', as'⟩, hd, heq⟩ := Option.map_eq_some_iff.mp hrx
    cases heq
    by_cases hover : enum.state = .enumerated
    · refine .inr ⟨⟨?_, ?_⟩, ?_⟩
      · rw [hover]
        rfl
      · exact (congrArg Enum.state (acts_same { s.acked with enum := enum } as).1).trans hover
      · intro x hx
        have hp := acts_pushed { s.acked with enum := enum } as
        rw [Enum.dispatch_over hd hover] at hp
        have htxq : s.acked.txq = s.txq := by
          rw [acked, txReady_rest]
        rcases List.mem_append.mp hx with hx | hx
        · have hnone := hp.txFrame.trans s.acked_txFrame
          cases hnone.symm.trans (Option.mem_toList.mp hx)
        · have := hp.queued.entries.mem_iff.mp hx
          rw [allocated, List.append_nil] at this
          rw [← htxq]
          exact this
    · refine .inl ⟨?_, ?_⟩
      · simpa using hover
      · intro hl
        have hmore : (enum.state != .enumerated) = true := by simpa using hover
        rw [hmore, if_pos rfl, List.append_nil, List.mem_append] at hl
        rcases hl with hl | hl
        · obtain ⟨i, t, ho⟩ := acts_out hl
          cases ho
        · cases List.mem_singleton.mp hl

/-- **While enumeration goes on** nobody listens for clients. -/
theorem step_going {s s' : SricIf} {ev : IfEvent} {out : List IfOut} (hi : TxInv s)
    (hno : s.enumerated = false) (hs : s.step ev = .ok (s', out)) :
    (s'.enumerated = false ∧ .listen ∉ out) ∨ Ends s s' := by
  obtain ⟨hlive, hh⟩ := step_handle hs
  cases ev with
  | enumStart =>
      obtain ⟨hen, hl⟩ := enumStep_going hh
      exact .inl ⟨hen.trans hno, hl⟩
  | push f pri =>
      cases hh
      exact .inl ⟨(txqPush_aside s f pri).enumerated.trans hno, List.not_mem_nil⟩
  | cancel tag =>
      obtain rfl : _ = s' := congrArg Prod.fst (Except.ok.inj hh)
      obtain rfl : (s.txqCancel tag).2 = out := congrArg Prod.snd (Except.ok.inj hh)
      refine .inl ⟨?_, ?_⟩
      · rw [txqCancel_rest]
        exact hno
      · intro hl
        obtain ⟨ptr, -, ho⟩ := List.mem_map.mp hl
        cases ho
  | ifTx id w =>
      refine .inl ⟨(write_cases hi hs).1.enumerated.trans hno, ?_⟩
      intro hl
      simp only [handle] at hh
      split at hh
      · cases hh
      rename_i hx
      cases hh
      rcases ifTx_cases hi.toTxCore hx with ⟨-, -, rfl, -⟩ | ⟨t, e, n, -, -, -, rfl⟩
      · cases hl
      · cases List.mem_singleton.mp hl
  | txTimeout id =>
      obtain rfl : _ = s' := congrArg Prod.fst (Except.ok.inj hh)
      obtain rfl : s.txTimeout.2 = out := congrArg Prod.snd (Except.ok.inj hh)
      refine .inl ⟨(txTimeout_aside (hlive _ rfl)).enumerated.trans hno, ?_⟩
      intro hl
      rw [txTimeout] at hl
      by_cases hc : s.frameCancelled = true
      · rw [if_pos hc] at hl
        obtain ⟨e, -, ho⟩ := Option.map_eq_some_iff.mp (Option.mem_toList.mp hl)
        cases ho
      · rw [if_neg hc] at hl
        cases hl
  | killToken id =>
      obtain ⟨u, hu, rfl⟩ := killToken_cases hh
      obtain ⟨hen, hl⟩ := enumStep_going hu
      exact .inl ⟨hen.trans hno, hl⟩
  | sendReset id =>
      obtain ⟨u, enum, as, again, -, hu, rfl⟩ := sendReset_cases hh
      obtain ⟨hen, hl⟩ := enumStep_going hu
      have hgoing : u.enumerated = false := hen.trans hno
      cases again <;> exact .inl ⟨hgoing, hl⟩
  | frame bytes =>
      rcases procRxFrame_cases hh with ⟨rfl, rfl⟩ | ⟨-, rfl, rfl | ⟨note, rfl⟩⟩ | ⟨e, hf, -, hret⟩
      · exact .inl ⟨hno, List.not_mem_nil⟩
      · exact .inl ⟨(txqPush_aside s _ 0).enumerated.trans hno, List.not_mem_nil⟩
      · exact .inl ⟨(txqPush_aside s _ 0).enumerated.trans hno, by simp⟩
      · exact retire_going hno hf hret

end SricIf

/-- Once it is over the daemon pushes only acks and resets. -/
theorem Link.Over.pushes {s : SricIf} {ev : IfEvent} (h : Over s) {f : FrameT}
    (hf : f ∈ s.pushes ev) : (∃ pri, ev = .push f pri) ∨ f.tag = .null := by
  have hnone : ∀ ev', SricIf.requested (s.enum.fsm ev') = [] := by
    intro ev'
    rw [fsm_enumerated h.2]
    rfl
  cases ev with
  | enumStart =>
      rw [SricIf.pushes, Enum.start, hnone] at hf
      cases hf
  | push g pri =>
      cases List.mem_singleton.mp hf
      exact .inl ⟨pri, rfl⟩
  | killToken id =>
      rw [SricIf.pushes, Enum.killTokenTimeout, hnone] at hf
      cases hf
  | sendReset id =>
      rw [SricIf.pushes, Enum.sendResetTimeout] at hf
      dsimp only at hf
      split at hf
      · rw [fsm_enumerated (by exact h.2)] at hf
        cases hf
      · cases List.mem_singleton.mp hf
        exact .inr rfl
  | frame bytes =>
      rw [SricIf.pushes] at hf
      split at hf
      · cases hf
      split at hf
      · cases List.mem_singleton.mp hf
        exact .inr rfl
      split at hf
      · rename_i hc
        exact absurd (hc.2.2.symm.trans h.1) (by simp)
      · cases hf
  | cancel tag => cases hf
  | ifTx id w => cases hf
  | txTimeout id => cases hf

/-! ## The clients' side -/

namespace Ipc

/-- A callback that registers no source, and queues no frame. -/
def Passive (s s' : Ipc) (out : List IpcOut) : Prop :=
  (∀ p ∈ s'.loop.live, p ∈ s.loop.live) ∧ ∀ f, .push f ∉ out

theorem Passive.trans {s t u : Ipc} {out outs : List IpcOut} (h : Passive s t out)
    (h' : Passive t u outs) : Passive s u (out ++ outs) :=
  ⟨fun p hp => h.1 p (h'.1 p hp),
    fun f hf => (List.mem_append.mp hf).elim (h.2 f) (h'.2 f)⟩

theorem clientPush_passive {s s' : Ipc} {k : Poll} {c : Nat} {f : Frame} {out : List IpcOut}
    (h : s.clientPush k c f = .ok (s', out)) : Passive s s' out := by
  obtain ⟨cl, cl', -, ⟨-, -, rfl, rfl⟩ | ⟨-, -, -, -, rfl, g, rfl⟩⟩ := Session.clientPush_cases h
  · exact ⟨fun p hp => hp, fun f => List.not_mem_nil⟩
  · exact ⟨fun p hp => ((MainLoop.mem_remove ..).mp hp).1, fun f => by simp⟩

theorem pushNotes_passive {s s' : Ipc} {note : Frame} {cs : List Nat} {out : List IpcOut}
    (h : s.pushNotes note cs = .ok (s', out)) : Passive s s' out := by
  induction cs generalizing s out with
  | nil =>
      cases h
      exact ⟨fun p hp => hp, fun f => List.not_mem_nil⟩
  | cons c cs ih =>
      obtain ⟨⟨t, o⟩, ht, h⟩ := bind_ok.mp h
      obtain ⟨⟨u, os⟩, hu, h⟩ := bind_ok.mp h
      cases h
      exact (clientPush_passive ht).trans (ih hu)

theorem call_passive {P : Platform} {s s' : Ipc} {o : IfOut} {out : List IpcOut}
    (ho : o ≠ .listen) (h : s.call P o = .ok (s', out)) : Passive s s' out := by
  cases o with
  | pushRx tag f =>
      cases tag with
      | client c => exact clientPush_passive h
      | null => cases h
      | badEnum => cases h
  | note f =>
      rw [call, dispatchNote] at h
      split at h
      · exact pushNotes_passive h
      · cases h
  | listen => exact absurd rfl ho
  | wrote | free | deviceAdd =>
      cases h
      exact ⟨fun p hp => hp, fun f => List.not_mem_nil⟩

/-- What is received queues nothing, and registers sources only when the
daemon begins to listen. -/
theorem calls_passive {P : Platform} {s s' : Ipc} {os : List IfOut} {out : List IpcOut}
    (h : s.calls P os = .ok (s', out)) :
    (.listen ∉ os → ∀ p ∈ s'.loop.live, p ∈ s.loop.live) ∧ ∀ f, .push f ∉ out := by
  induction os generalizing s out with
  | nil =>
      cases h
      exact ⟨fun _ p hp => hp, fun f => List.not_mem_nil⟩
  | cons o os ih =>
      obtain ⟨⟨t, o₁⟩, ht, h⟩ := bind_ok.mp h
      obtain ⟨⟨u, o₂⟩, hu, h⟩ := bind_ok.mp h
      cases h
      obtain ⟨hlive, hpush⟩ := ih hu
      by_cases ho : o = .listen
      · subst ho
        cases ht
        exact ⟨fun hno => absurd List.mem_cons_self hno, hpush⟩
      · have hp := call_passive ho ht
        refine ⟨fun hno p hp' => hp.1 p (hlive (fun hl => hno (List.mem_cons_of_mem _ hl)) p hp'),
          fun f hf => ?_⟩
        exact (List.mem_append.mp hf).elim (hp.2 f) (hpush f)

/-- Where nothing is registered, nothing happens. -/
theorem step_idle {P : Platform} {s s' : Ipc} {ev : IpcEvent} {out : List IpcOut}
    (hidle : s.loop.live = []) (h : s.step P ev = .ok (s', out)) :
    s'.loop.live = [] ∧ out = [] := by
  obtain ⟨hlive, hh⟩ := step_handle h
  rw [hidle] at hlive
  cases ev with
  | sent c bytes =>
      simp only [handle] at hh
      split at hh
      · cases hh
        exact ⟨hidle, rfl⟩
      · cases hh
  | closed c =>
      simp only [handle] at hh
      split at hh
      · cases hh
        exact ⟨hidle, rfl⟩
      · cases hh
  | new | incoming | death | timeout => cases hlive _ rfl

end Ipc

/-- A client's request leaves the enumeration alone. -/
theorem SricIf.calls_same (s : SricIf) (os : List IpcOut) :
    (s.calls os).1.enumerated = s.enumerated ∧ (s.calls os).1.enum = s.enum := by
  induction os generalizing s with
  | nil => exact ⟨rfl, rfl⟩
  | cons o os ih =>
      obtain ⟨hen, henum⟩ := ih (s.call o).1
      have hcall : (s.call o).1.enumerated = s.enumerated ∧ (s.call o).1.enum = s.enum := by
        cases o with
        | reply c r => exact ⟨rfl, rfl⟩
        | push f => exact ⟨(txqPush_aside s f 1).enumerated, (txqPush_aside s f 1).enum⟩
        | cancel c =>
            show (s.txqCancel _).1.enumerated = _ ∧ (s.txqCancel _).1.enum = _
            rw [txqCancel_rest]
            exact ⟨rfl, rfl⟩
      exact ⟨hen.trans hcall.1, henum.trans hcall.2⟩

namespace Daemon

/-- `handle_tx` has stored the tag, for a client. -/
def Stored (os : List DaemonOut) (tag : Tag) : Prop :=
  ∃ f c, .ipc (.push f) ∈ os ∧ f.tag = tag ∧ tag = .client c

theorem Stored.mono {os os' : List DaemonOut} {tag : Tag} (h : Stored os tag) :
    Stored (os ++ os') tag := by
  obtain ⟨f, c, hf, hrest⟩ := h
  exact ⟨f, c, List.mem_append_left _ hf, hrest⟩

/-- The responses of every step go to clients. -/
def ToClients (P : Platform) (evs : List DaemonEvent) : Prop :=
  ∀ pre ev post s os t out, evs = pre ++ .sricIf ev :: post →
    run (step P) init pre = .ok (s, os) → s.sricIf.step ev = .ok (t, out) →
    ∀ tag ∈ responses out, Stored os tag

/-- What is queued while enumeration goes on. -/
def early (s : Daemon) (_ : DaemonEvent) : List TxEntry :=
  if s.sricIf.enumerated then [] else s.sricIf.txq.entries

/-- An ack finds in flight, once enumeration is over, a frame that wants no
ack, and is partly written, or one of those that were queued `early`. -/
def Astray (early : List TxEntry) (s : SricIf) (ev : IfEvent) : Prop :=
  SricIf.Acks ev ∧ s.enumerated = true ∧ s.frameCancelled = false ∧ ∃ e, s.txFrame = some e
    ∧ (e.frame.needsAck = false ∧ s.txpos < s.txlen ∨ e ∈ early)

/-- No ack goes astray. -/
def Straight (P : Platform) (evs : List DaemonEvent) : Prop :=
  ∀ pre ev post s os, evs = pre ++ .sricIf ev :: post → run (step P) init pre = .ok (s, os) →
    ¬Astray (history (step P) early init pre) s.sricIf ev

/-- The frame is the daemon's own. -/
def Own (f : FrameT) : Prop := f.tag = .null ∨ f.tag = .badEnum

theorem Own.not_stored {f : FrameT} (h : Own f) {os : List DaemonOut} : ¬Stored os f.tag := by
  intro hx
  obtain ⟨g, c, -, -, hc⟩ := hx
  rcases h with hn | hb
  · cases hn.symm.trans hc
  · cases hb.symm.trans hc

/-- Where the frames come from: the daemon's own are those queued early, but
for acks and resets. -/
structure Known (es : List TxEntry) (os : List DaemonOut) (s : Daemon) : Prop where
  inv : Inv s
  early : ∀ e ∈ es, Own e.frame
  held : ∀ e ∈ s.sricIf.held, Own e.frame ∨ Stored os e.frame.tag
  going : s.sricIf.enumerated = false → s.ipc.loop.live = [] ∧ ∀ f, .ipc (.push f) ∉ os
  ended : s.sricIf.enumerated = true → Link.Over s.sricIf
    ∧ ∀ e ∈ s.sricIf.held, e.frame.tag = .badEnum → e ∈ es

theorem known_init : Known [] [] init where
  inv := inv_init
  early e he := by cases he
  held e he := by cases he
  going _ := ⟨rfl, fun f => List.not_mem_nil⟩
  ended h := by cases h

section
variable {es : List TxEntry} {os : List DaemonOut} {s s' : Daemon}

/-- While enumeration goes on there are only the daemon's own frames. -/
theorem Known.own (h : Known es os s) (hno : s.sricIf.enumerated = false) {e : TxEntry}
    (he : e ∈ s.sricIf.held) : Own e.frame := by
  apply (h.held e he).resolve_right
  intro hx
  obtain ⟨f, c, hf, -⟩ := hx
  exact (h.going hno).2 f hf

theorem Known.early_own (h : Known es os s) (ev : DaemonEvent) :
    ∀ e ∈ es ++ s.early ev, Own e.frame := by
  intro e he
  rcases List.mem_append.mp he with he | he
  · exact h.early e he
  · rw [Daemon.early] at he
    split at he
    · cases he
    · rename_i hno
      exact h.own (Bool.eq_false_iff.mpr hno) (List.mem_append_right _ he)

theorem early_over (ev : DaemonEvent) (h : s.sricIf.enumerated = true) : s.early ev = [] :=
  if_pos h

theorem Known.sricIf {P : Platform} {ev : IfEvent} {out : List DaemonOut} (h : Known es os s)
    (hs : step P s (.sricIf ev) = .ok (s', out)) :
    Known (es ++ s.early (.sricIf ev)) (os ++ out) s' := by
  have hinv := inv_step P s _ s' out h.inv hs
  obtain ⟨os', ipc, outs, hcall, ht, hcalls, rfl, rfl⟩ := sricIf_ok hs
  have heffect := SricIf.step_effect h.inv.txInv ht
  have hpush : ∀ f pri, ev ≠ .push f pri := by
    intro f pri hx
    obtain rfl := hx
    cases hcall
  refine ⟨hinv, h.early_own _, ?_, ?_, ?_⟩
  · intro e he
    rcases SricIf.mem_held_effect heffect he with he | he
    · exact (h.held e he).imp_right Stored.mono
    · rcases SricIf.pushes_tag he with ⟨pri, hev⟩ | htag
      · exact absurd hev (hpush _ pri)
      · exact .inl htag
  · intro hno
    cases hen : s.sricIf.enumerated with
    | true =>
        have := ((h.ended hen).1.sricIf_step h.inv.txInv ht).1
        cases hno.symm.trans this
    | false =>
        rcases SricIf.step_going h.inv.txInv hen ht with ⟨-, hlisten⟩ | hends
        · obtain ⟨hlive, hnone⟩ := Ipc.calls_passive hcalls
          obtain ⟨hidle, hold⟩ := h.going hen
          rw [hidle] at hlive
          refine ⟨List.eq_nil_iff_forall_not_mem.mpr ?_, ?_⟩
          · intro p hp
            cases hlive hlisten p hp
          · intro f hf
            rcases List.mem_append.mp hf with hf | hf
            · exact hold f hf
            · simp only [List.mem_append, List.mem_map, reduceCtorEq, and_false, exists_false,
                DaemonOut.ipc.injEq, exists_eq_right, false_or] at hf
              exact hnone f hf
        · cases hno.symm.trans hends.ended.1
  · intro hover
    cases hen : s.sricIf.enumerated with
    | true =>
        rw [early_over _ hen, List.append_nil]
        obtain ⟨hold, hheld⟩ := h.ended hen
        refine ⟨hold.sricIf_step h.inv.txInv ht, ?_⟩
        intro e he htag
        rcases SricIf.mem_held_effect heffect he with he | he
        · exact hheld e he htag
        · rcases hold.pushes he with ⟨pri, hev⟩ | hn
          · exact absurd hev (hpush _ pri)
          · cases htag.symm.trans hn
    | false =>
        rcases SricIf.step_going h.inv.txInv hen ht with ⟨hno, -⟩ | hends
        · cases hover.symm.trans hno
        · refine ⟨hends.ended, fun e he _ => List.mem_append_right _ ?_⟩
          rw [Daemon.early, if_neg (by rw [hen]; simp)]
          exact hends.queued e he

theorem Known.ipc {P : Platform} {ev : IpcEvent} {out : List DaemonOut} (h : Known es os s)
    (hs : step P s (.ipc ev) = .ok (s', out)) :
    Known (es ++ s.early (.ipc ev)) (os ++ out) s' := by
  have hinv := inv_step P s _ s' out h.inv hs
  obtain ⟨os', hi, ht, rfl⟩ := ipc_ok hs
  obtain ⟨hen, henum⟩ := SricIf.calls_same s.sricIf os'
  rw [← ht] at hen henum
  refine ⟨hinv, h.early_own _, ?_, ?_, ?_⟩
  · intro e he
    rw [ht] at he
    rcases SricIf.mem_held_calls he with he | he
    · exact (h.held e he).imp_right Stored.mono
    · obtain ⟨-, id, c, stale, -, htag⟩ := Ipc.step_queues hi he
      refine .inr ⟨e.frame, c, ?_, rfl, htag⟩
      exact List.mem_append_right _ (List.mem_append_left _ (List.mem_map_of_mem he))
  · intro hno
    obtain ⟨hidle, hold⟩ := h.going (hen.symm.trans hno)
    obtain ⟨hidle', rfl⟩ := Ipc.step_idle hidle hi
    refine ⟨hidle', ?_⟩
    intro f hf
    rcases List.mem_append.mp hf with hf | hf
    · exact hold f hf
    · simp [SricIf.calls] at hf
  · intro hover
    have hover' : s.sricIf.enumerated = true := hen.symm.trans hover
    obtain ⟨hold, hheld⟩ := h.ended hover'
    rw [early_over _ hover', List.append_nil]
    refine ⟨⟨hover, (congrArg Enum.state henum).trans hold.2⟩, ?_⟩
    intro e he htag
    rw [ht] at he
    rcases SricIf.mem_held_calls he with he | he
    · exact hheld e he htag
    · obtain ⟨-, id, c, stale, -, hc⟩ := Ipc.step_queues hi he
      cases htag.symm.trans hc

theorem known_step {P : Platform} {ev : DaemonEvent} {out : List DaemonOut} (h : Known es os s)
    (hs : step P s ev = .ok (s', out)) : Known (es ++ s.early ev) (os ++ out) s' := by
  cases ev with
  | sricIf ev => exact h.sricIf hs
  | ipc ev => exact h.ipc hs

theorem known_run {P : Platform} {evs : List DaemonEvent} {out : List DaemonOut}
    (h : Known es os s) (hr : run (step P) s evs = .ok (s', out)) :
    Known (es ++ history (step P) early s evs) (os ++ out) s' := by
  induction evs generalizing s es os out with
  | nil =>
      cases hr
      simpa [history] using h
  | cons ev evs ih =>
      obtain ⟨u, o, o', hs, hr', rfl⟩ := run_cons_ok.mp hr
      have := ih (known_step h hs) hr'
      rwa [history, hs, ← List.append_assoc, ← List.append_assoc]

/-- A response of a step is to the frame in flight. -/
theorem Known.response (h : Known es os s) {ev : IfEvent} {t : SricIf} {out : List IfOut}
    (hs : s.sricIf.step ev = .ok (t, out)) {tag : Tag} (htag : tag ∈ responses out) :
    Stored os tag ∨ Astray es s.sricIf ev := by
  have hquiet : responses out = [] → Stored os tag ∨ Astray es s.sricIf ev := by
    intro hnil
    rw [hnil] at htag
    cases htag
  cases SricIf.step_effect h.inv.txInv hs with
  | pushed _ _ _ _ _ hq _ => exact hquiet hq.1
  | cancelled _ _ _ _ hq => exact hquiet hq.1
  | wrote _ _ _ _ _ _ _ _ _ _ hout _ =>
      apply hquiet
      rw [hout]
      rfl
  | timedOut _ _ _ _ _ _ _ _ hq => exact hquiet hq.1
  | acked e hacks hf _ _ _ _ hresp _ =>
      rw [hresp] at htag
      split at htag
      case isFalse => cases htag
      rename_i hc
      obtain rfl := List.mem_singleton.mp htag
      have hheld : e ∈ s.sricIf.held := by
        rw [SricIf.held, hf]
        exact List.mem_cons_self
      rcases h.held e hheld with (hnull | hbad) | hstored
      · -- such a frame is in flight only until it is written
        have hin := h.inv.txInv.inFlight e hf
        have hno : e.frame.needsAck = false := by
          rw [FrameT.needsAck, hnull]
          rfl
        refine .inr ⟨hacks, hc.2, hc.1, e, hf, .inl ⟨hno, ?_⟩⟩
        apply Nat.lt_of_le_of_ne hin.txpos_le
        intro heq
        cases hno.symm.trans (hin.needsAck heq)
      · exact .inr ⟨hacks, hc.2, hc.1, e, hf, .inr ((h.ended hc.2).2 e hheld hbad)⟩
      · exact .inl hstored

/-- An ack that goes astray hands on no client's tag. -/
theorem Known.astray (h : Known es os s) {ev : IfEvent} (ha : Astray es s.sricIf ev) :
    ∃ t out tag, s.sricIf.step ev = .ok (t, out) ∧ tag ∈ responses out ∧ ¬Stored os tag := by
  obtain ⟨⟨bytes, rfl, hme, hack⟩, hover, hc, e, hf, hwhy⟩ := ha
  have hstep : s.sricIf.step (.frame bytes) = s.sricIf.retire e (PackedFrame.ofBytes bytes) := by
    show s.sricIf.procRxFrame bytes = _
    rw [SricIf.procRxFrame]
    simp only [hme, hack, hf, Bool.true_eq_false, if_false]
  have hheld : e ∈ s.sricIf.held := by
    rw [SricIf.held, hf]
    exact List.mem_cons_self
  obtain ⟨t, ht⟩ := SricIf.retire_over hf hc hover (PackedFrame.ofBytes bytes)
  refine ⟨t, _, e.frame.tag, hstep.trans ht, List.mem_cons_self, ?_⟩
  rcases hwhy with ⟨hno, -⟩ | hearly
  · rcases h.held e hheld with hown | ⟨f, c, -, -, htag⟩
    · exact hown.not_stored
    · -- a client's frame has an address of seven bits
      have h7 : e.frame.address.testBit 7 = false :=
        Nat.testBit_lt_two_pow (h.inv.addressed e hheld c htag)
      simp [FrameT.needsAck, FrameT.isAck, htag, h7] at hno
  · exact (h.early e hearly).not_stored

end

/-- **Responses are pushed to clients** in every step of a run exactly when
no ack of the run goes astray. -/
theorem responses_to_clients_iff (P : Platform) (evs : List DaemonEvent) :
    ToClients P evs ↔ Straight P evs := by
  constructor
  · intro h pre ev post s os hevs hr hastray
    have hk : Known _ ([] ++ os) s := known_run known_init hr
    obtain ⟨t, out, tag, hs, htag, hno⟩ := hk.astray (by exact hastray)
    exact hno (h pre ev post s os t out hevs hr hs tag htag)
  · intro h pre ev post s os t out hevs hr hs tag htag
    have hk : Known _ ([] ++ os) s := known_run known_init hr
    exact (hk.response hs htag).resolve_right (h pre ev post s os hevs hr)

/-- The last frame of a run is a response to a frame of the daemon's own. -/
theorem not_toClients {P : Platform} {evs : List DaemonEvent} {bytes : List Byte} {tag : Tag}
    (hown : tag = .null ∨ tag = .badEnum)
    (h : ((run (step P) init evs).toOption.any fun p =>
      (p.1.sricIf.step (.frame bytes)).toOption.any fun q => decide (tag ∈ responses q.2)) = true) :
    ¬ToClients P (evs ++ [.sricIf (.frame bytes)]) := by
  intro hall
  obtain ⟨⟨s, os⟩, hr, hs⟩ := ok_of_any h
  obtain ⟨⟨t, out⟩, ht, htag⟩ := ok_of_any hs
  obtain ⟨f, c, -, -, hc⟩ := hall evs _ [] s os t out rfl hr ht tag (of_decide_eq_true htag)
  rcases hown with rfl | rfl <;> cases hc

/-- A note, of whose ack three bytes are written. -/
def halfAcked : List DaemonEvent :=
  connected ++ [.sricIf (.frame (frameBytes 1 2 [5])), .sricIf (.ifTx 33 (some 3))]

/-- Enumeration ended by two acks of the gateway that carry a byte, with two
of its frames still queued. -/
def endedEarly : List DaemonEvent :=
  connected.take 35 ++ exchange 25 8 1 [9] ++ exchange 27 7 1 [9] ++ [.sricIf (.ifTx 29 (some 7))]

/-- An ack is handed on to `NULL`, which aborts the daemon, and another to
`BAD_ENUM_TAG`. -/
theorem responses_astray :
    ¬ToClients .x86 (halfAcked ++ [.sricIf (.frame (ackBytes 2 []))])
      ∧ run (step .x86) init (halfAcked ++ [.sricIf (.frame (ackBytes 2 []))]) = .error .assertion
      ∧ ¬ToClients .x86 (endedEarly ++ [.sricIf (.frame (ackBytes 2 [5]))]) := by
  refine ⟨not_toClients (.inl rfl) (by decide +kernel), ?_,
    not_toClients (.inr rfl) (by decide +kernel)⟩
  have hhalt : (match run (step .x86) init (halfAcked ++ [.sricIf (.frame (ackBytes 2 []))]) with
      | .error x => x == .assertion
      | .ok _ => false) = true := by decide +kernel
  split at hhalt
  · rename_i x hx
    rw [hx, beq_iff_eq.mp hhalt]
  · cases hhalt

end Daemon

end Sricd
