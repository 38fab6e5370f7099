import Sricd.Formats
import Sricd.NoteCache

/-!
# The errors of a send

`sric_tx` and `sric_note_set_flags` of a client, against the daemon: what
the daemon puts on its queue, and what the client is told. The checks of
`libsric` report what its header says. The daemon's own check does not: its
`E_BADADDR` comes out as `SRIC_ERROR_BADPAYLOAD` (`send_errors_iff`).
-/

namespace Sricd

open Sricd.Lib

/-! ## The connection -/

/-- The daemon, what it has written to the client that the client has not
read, and the frames it has put on its queue. -/
structure Peer where
  ipc : Ipc
  unread : List Byte
  queued : List FrameT

/-- The frames that are pushed. -/
def pushed : List IpcOut → List FrameT
  | [] => []
  | .push f :: os => f :: pushed os
  | _ :: os => pushed os

/-- The socket of client `c`, with the queue in sight. -/
def Peer.fd (P : Platform) (id c : Nat) (stale : BitVec 64) : Fd Peer where
  write x data :=
    match run (Ipc.step P) x.ipc [.sent c data, .incoming id c stale] with
    | .ok (s, os) => (⟨s, x.unread ++ repliesTo c os, x.queued ++ pushed os⟩, data.length)
    | .error _ => (x, 0)
  read x n := ({ x with unread := x.unread.drop n }, x.unread.take n)

/-- The client is connected, and has read all replies. -/
structure Synced (id c : Nat) (ctx : Context Peer) : Prop where
  connected : Connected ctx.fd.ipc id c
  unread : ctx.fd.unread = []

/-- The daemon serves a request that it answers with a status. -/
theorem Synced.answered {P : Platform} {id c : Nat} {ctx : Context Peer} (h : Synced id c ctx)
    (stale : BitVec 64) (q : Request) {t : Ipc} {os : List IpcOut} {result : Byte}
    (hq : q.serve P ctx.fd.ipc c = .ok (t, os)) (hos : repliesTo c os = [result]) :
    (Peer.fd P id c stale).write ctx.fd q.bytes
        = (⟨t, [result], ctx.fd.queued ++ pushed os⟩, q.bytes.length)
      ∧ (Peer.fd P id c stale).read ⟨t, [result], ctx.fd.queued ++ pushed os⟩ 1
        = (⟨t, [], ctx.fd.queued ++ pushed os⟩, [result]) := by
  refine ⟨?_, rfl⟩
  dsimp only [Peer.fd]
  rw [h.connected.run_request stale q hq, h.unread]
  dsimp only
  rw [hos, List.nil_append]

/-! ## The checks -/

/-- An address on the bus. -/
def InRange (a : BitVec 32) : Prop := 0 ≤ a.toInt ∧ a.toInt < sricHighAddress

/-- The address is one of the bus, and the daemon has the device. -/
def Devices.Reachable (P : Platform) (d : Devices) (a : BitVec 32) : Prop :=
  InRange a ∧ d.known P a.toNat = true

/-- What `check_address` finds. -/
theorem checkAddress_cases (a : BitVec 32) (allowBroadcast : Bool) :
    (¬InRange a ∧ checkAddress a allowBroadcast = some .noSuchAddress)
      ∨ (InRange a ∧ allowBroadcast = false ∧ checkAddress a allowBroadcast = some .broadcast)
      ∨ (a = 1 ∧ checkAddress a allowBroadcast = some .loop)
      ∨ (InRange a ∧ checkAddress a allowBroadcast = none) := by
  have h128 : (BitVec.ofNat 32 sricHighAddress).toInt = sricHighAddress := rfl
  rw [checkAddress]
  by_cases hneg : a.slt 0 = true
  · rw [if_pos hneg]
    refine .inl ⟨fun hr => ?_, rfl⟩
    exact absurd (slt_toInt.mp hneg) (Int.not_lt.mpr hr.1)
  rw [if_neg hneg]
  have h0 : 0 ≤ a.toInt := Int.not_lt.mp fun hlt => hneg (slt_toInt.mpr hlt)
  by_cases hbroad : a = 0 ∧ (!allowBroadcast) = true
  · rw [if_pos hbroad]
    obtain ⟨rfl, hb⟩ := hbroad
    exact .inr (.inl ⟨⟨h0, by decide⟩, by simpa using hb, rfl⟩)
  rw [if_neg hbroad]
  by_cases hloop : a = 1
  · rw [if_pos hloop]
    exact .inr (.inr (.inl ⟨hloop, rfl⟩))
  rw [if_neg hloop]
  by_cases hhigh : (BitVec.ofNat 32 sricHighAddress).sle a = true
  · rw [if_pos hhigh]
    refine .inl ⟨fun hr => ?_, rfl⟩
    have hle : (BitVec.ofNat 32 sricHighAddress).toInt ≤ a.toInt := of_decide_eq_true hhigh
    rw [h128] at hle
    exact absurd hr.2 (Int.not_lt.mpr hle)
  · rw [if_neg hhigh]
    refine .inr (.inr (.inr ⟨⟨h0, Int.not_le.mp fun hle => hhigh (decide_eq_true ?_)⟩, rfl⟩))
    rw [h128]
    exact hle

/-- What `check_frame` finds. -/
theorem checkFrame_cases (frame : SricFrame) :
    (¬InRange frame.address ∧ checkFrame frame = some .noSuchAddress)
      ∨ (frame.address = 1 ∧ checkFrame frame = some .loop)
      ∨ (InRange frame.address ∧ frame.note ≠ -1 ∧ checkFrame frame = some .noSendNote)
      ∨ (InRange frame.address
        ∧ (frame.payloadLength.toInt < 0 ∨ (sricMaxPayloadSize : Int) < frame.payloadLength.toInt)
        ∧ checkFrame frame = some .badPayload)
      ∨ (InRange frame.address ∧ checkFrame frame = none) := by
  have h64 : (BitVec.ofNat 32 sricMaxPayloadSize).toInt = sricMaxPayloadSize := rfl
  rw [checkFrame]
  rcases checkAddress_cases frame.address true with
    ⟨hr, hc⟩ | ⟨-, hb, -⟩ | ⟨h1, hc⟩ | ⟨hr, hc⟩
  · rw [hc]
    exact .inl ⟨hr, rfl⟩
  · cases hb
  · rw [hc]
    exact .inr (.inl ⟨h1, rfl⟩)
  rw [hc]
  dsimp only
  by_cases hnote : frame.note ≠ -1
  · rw [if_pos hnote]
    exact .inr (.inr (.inl ⟨hr, hnote, rfl⟩))
  rw [if_neg hnote]
  by_cases hneg : frame.payloadLength.slt 0 = true
  · rw [if_pos hneg]
    exact .inr (.inr (.inr (.inl ⟨hr, .inl (slt_toInt.mp hneg), rfl⟩)))
  rw [if_neg hneg]
  by_cases hbig : (BitVec.ofNat 32 sricMaxPayloadSize).slt frame.payloadLength = true
  · rw [if_pos hbig]
    refine .inr (.inr (.inr (.inl ⟨hr, .inr ?_, rfl⟩)))
    rw [← h64]
    exact slt_toInt.mp hbig
  · rw [if_neg hbig]
    exact .inr (.inr (.inr (.inr ⟨hr, rfl⟩)))

/-! ## One send -/

/-- What the daemon queues for a frame. -/
def Carries (c : Nat) (frame : SricFrame) (f : FrameT) : Prop :=
  f.address = frame.address.toNat ∧ f.tag = .client c ∧ f.payload = frame.sent

/-- The outcome of `sric_tx`, as its header has it. -/
structure TxReports (P : Platform) (c : Nat) (ctx : Context Peer) (frame : SricFrame)
    (r : Context Peer × Nat) : Prop where
  success : r.2 = 0 ↔ ∃ f, Carries c frame f ∧ r.1.fd.queued = ctx.fd.queued ++ [f]
  failure : r.2 ≠ 0 → r.1.fd.queued = ctx.fd.queued
    ∧ r.1.error ∈ [.badPayload, .noSendNote, .loop, .noSuchAddress]
  badPayload : r.2 ≠ 0 → r.1.error = .badPayload →
    frame.payloadLength.toInt < 0 ∨ (sricMaxPayloadSize : Int) < frame.payloadLength.toInt
  noSendNote : r.2 ≠ 0 → r.1.error = .noSendNote → frame.note ≠ -1
  loop : r.2 ≠ 0 → r.1.error = .loop → frame.address = 1
  noSuchAddress : r.2 ≠ 0 → ¬ctx.fd.ipc.devices.Reachable P frame.address →
    r.1.error = .noSuchAddress

/-- The outcome of `sric_note_set_flags` for a device that the daemon does
not know. -/
def NotesReport (P : Platform) (ctx : Context Peer) (device : BitVec 32)
    (r : Context Peer × Nat) : Prop :=
  ¬ctx.fd.ipc.devices.Reachable P device → r.1.error = .noSuchAddress

namespace Synced

variable {P : Platform} {id c : Nat} {ctx : Context Peer}

/-- A frame that a check refuses is not sent. -/
theorem tx_refused (F : Fd Peer) {frame : SricFrame} {e : SricError}
    (he : checkFrame frame = some e) :
    F.sricTx ctx frame = ({ ctx with error := e }, 1) := by
  rw [Fd.sricTx]
  simp only [he]
  rfl

/-- A frame that the checks let through comes to `handle_tx` as it is. -/
theorem tx_answered (h : Synced id c ctx) (stale : BitVec 64) {frame : SricFrame}
    (hcheck : checkFrame frame = none) :
    ∃ f, Carries c frame f ∧ ∀ {os : List IpcOut} {result : Byte},
      ctx.fd.ipc.transmit P c f = .ok (ctx.fd.ipc, os) → repliesTo c os = [result] →
      (Peer.fd P id c stale).write ctx.fd (Fd.txCommand frame)
          = (⟨ctx.fd.ipc, [result], ctx.fd.queued ++ pushed os⟩, (Fd.txCommand frame).length)
        ∧ (Peer.fd P id c stale).read ⟨ctx.fd.ipc, [result], ctx.fd.queued ++ pushed os⟩ 1
          = (⟨ctx.fd.ipc, [], ctx.fd.queued ++ pushed os⟩, [result]) := by
  have h64 : sricMaxPayloadSize = 64 := rfl
  obtain ⟨haddr, hlen⟩ := checkFrame_none hcheck
  have hsent := sent_length hlen
  have hlt : frame.sent.length < 2 ^ 16 := by omega
  have hfit : frame.sent.length ≤ payloadMax := hsent.le.trans hlen
  refine ⟨⟨.sric, frame.address.toNat, .client c, frame.sent, hfit⟩, ⟨rfl, rfl, rfl⟩, ?_⟩
  intro os result ht hos
  have hserve : (Request.tx (frame.address.truncate 16) frame.sent hlt).serve P ctx.fd.ipc c
      = .ok (ctx.fd.ipc, os) := by
    rw [Request.serve, dif_pos hfit, toNat_truncate16 haddr, ht]
  rw [txCommand_request hlen hlt]
  exact h.answered stale _ hserve hos

/-- A frame for a device that exists is queued. -/
theorem tx_known (h : Synced id c ctx) (stale : BitVec 64) {frame : SricFrame}
    (hcheck : checkFrame frame = none)
    (hk : ctx.fd.ipc.devices.known P frame.address.toNat = true) :
    ∃ f, Carries c frame f ∧ (Peer.fd P id c stale).sricTx ctx frame
      = ({ ctx with fd := ⟨ctx.fd.ipc, [], ctx.fd.queued ++ [f]⟩, error := .none }, 0) := by
  obtain ⟨f, hf, hanswer⟩ := h.tx_answered (P := P) stale hcheck
  have ht : ctx.fd.ipc.transmit P c f
      = .ok (ctx.fd.ipc, [.push f, .reply c (.status eSuccess)]) := by
    apply Ipc.transmit_known
    · rw [hf.1]
      exact (checkFrame_none hcheck).1
    · rw [hf.1]
      exact hk
  obtain ⟨hw, hr⟩ := hanswer ht (repliesTo_status c eSuccess)
  have hsend : (Peer.fd P id c stale).sendCommand ctx.clearError (Fd.txCommand frame) = _ :=
    Fd.sendCommand_success _ hw hr
  refine ⟨f, hf, ?_⟩
  rw [Fd.sricTx]
  simp only [hcheck]
  exact hsend

/-- A frame for a device that does not exist is not queued, and the error
is the one for its payload. -/
theorem tx_absent (h : Synced id c ctx) (stale : BitVec 64) {frame : SricFrame}
    (hcheck : checkFrame frame = none)
    (hk : ctx.fd.ipc.devices.known P frame.address.toNat = false) :
    (Peer.fd P id c stale).sricTx ctx frame
      = ({ ctx with fd := ⟨ctx.fd.ipc, [], ctx.fd.queued ++ []⟩, error := .badPayload }, 1) := by
  obtain ⟨f, hf, hanswer⟩ := h.tx_answered (P := P) stale hcheck
  have ht : ctx.fd.ipc.transmit P c f = .ok (ctx.fd.ipc, [.reply c (.status eBadAddr)]) := by
    apply Ipc.transmit_absent
    · rw [hf.1]
      exact (checkFrame_none hcheck).1
    · rw [hf.1]
      exact hk
  obtain ⟨hw, hr⟩ := hanswer ht (repliesTo_status c eBadAddr)
  have hsend : (Peer.fd P id c stale).sendCommand ctx.clearError (Fd.txCommand frame) = _ :=
    Fd.sendCommand_badAddr _ hw hr
  rw [Fd.sricTx]
  simp only [hcheck]
  exact hsend

/-- A frame that a check of `libsric` refuses. -/
theorem tx_refused_reports {frame : SricFrame} {e : SricError} (F : Fd Peer)
    (he : checkFrame frame = some e)
    (hmem : e ∈ [.badPayload, .noSendNote, .loop, .noSuchAddress])
    (hpay : e = .badPayload → frame.payloadLength.toInt < 0
      ∨ (sricMaxPayloadSize : Int) < frame.payloadLength.toInt)
    (hnote : e = .noSendNote → frame.note ≠ -1) (hloop : e = .loop → frame.address = 1)
    (hsuch : ¬ctx.fd.ipc.devices.Reachable P frame.address → e = .noSuchAddress) :
    TxReports P c ctx frame (F.sricTx ctx frame) := by
  rw [tx_refused F he]
  refine ⟨⟨fun h => absurd h Nat.one_ne_zero, ?_⟩, fun _ => ⟨rfl, hmem⟩, fun _ => hpay, fun _ => hnote,
    fun _ => hloop, fun _ => hsuch⟩
  intro hq
  obtain ⟨f, -, hq⟩ := hq
  exact absurd (List.self_eq_append_right.mp hq) (List.cons_ne_nil f [])

/-- **One frame**: the outcome is as documented exactly if the address is
not on the bus, or the daemon has the device. -/
theorem tx_reports_iff (h : Synced id c ctx) (stale : BitVec 64) (frame : SricFrame) :
    TxReports P c ctx frame ((Peer.fd P id c stale).sricTx ctx frame)
      ↔ (InRange frame.address → ctx.fd.ipc.devices.known P frame.address.toNat = true) := by
  constructor
  · intro hx hr
    by_contra hk
    have hun : ¬ctx.fd.ipc.devices.Reachable P frame.address := fun hreach => hk hreach.2
    have hsuch := fun hne => hx.noSuchAddress hne hun
    -- no check of an address in range ends in that error
    have hrefused : ∀ e, checkFrame frame = some e → e = .noSuchAddress := by
      intro e he
      rw [tx_refused _ he] at hsuch
      exact hsuch Nat.one_ne_zero
    rcases checkFrame_cases frame with
      ⟨hn, -⟩ | ⟨-, hc⟩ | ⟨-, -, hc⟩ | ⟨-, -, hc⟩ | ⟨-, hc⟩
    · exact hn hr
    · cases hrefused _ hc
    · cases hrefused _ hc
    · cases hrefused _ hc
    · rw [h.tx_absent stale hc (Bool.eq_false_iff.mpr hk)] at hsuch
      cases hsuch Nat.one_ne_zero
  · intro hk
    have hreach : InRange frame.address →
        ¬ctx.fd.ipc.devices.Reachable P frame.address → False := by
      intro hr hun
      exact hun ⟨hr, hk hr⟩
    rcases checkFrame_cases frame with
      ⟨-, hc⟩ | ⟨h1, hc⟩ | ⟨hr, hn, hc⟩ | ⟨hr, hp, hc⟩ | ⟨hr, hc⟩
    · exact tx_refused_reports _ hc (by simp) (by simp) (by simp) (by simp) fun _ => rfl
    · have hr : InRange frame.address := by
        rw [h1]
        exact ⟨by decide, by decide⟩
      exact tx_refused_reports _ hc (by simp) (by simp) (by simp) (fun _ => h1) fun hun =>
        (hreach hr hun).elim
    · exact tx_refused_reports _ hc (by simp) (by simp) (fun _ => hn) (by simp) fun hun =>
        (hreach hr hun).elim
    · exact tx_refused_reports _ hc (by simp) (fun _ => hp) (by simp) (by simp) fun hun =>
        (hreach hr hun).elim
    · obtain ⟨f, hf, hsent⟩ := h.tx_known stale hc (hk hr)
      rw [hsent]
      have hno : ∀ {p : Prop}, (0 : Nat) ≠ 0 → p := fun hne => absurd rfl hne
      exact ⟨⟨fun _ => ⟨f, hf, rfl⟩, fun _ => rfl⟩, hno, hno, hno, hno, hno⟩

/-- Flags for an address that a check refuses are not sent. -/
theorem setFlags_refused (F : Fd Peer) {device : BitVec 32} {e : SricError}
    (he : checkAddress device false = some e) (flags : BitVec 64) :
    F.sricNoteSetFlags ctx device flags = ({ ctx with error := e }, 1) := by
  rw [Fd.sricNoteSetFlags]
  simp only [he]
  rfl

/-- Flags for a device that does not exist, which are the cached ones, or
come to the daemon. -/
theorem setFlags_absent (h : Synced id c ctx) (stale : BitVec 64) {device : BitVec 32}
    (hcheck : checkAddress device false = none)
    (hk : ctx.fd.ipc.devices.known P device.toNat = false) (flags : BitVec 64) :
    ((Peer.fd P id c stale).sricNoteSetFlags ctx device flags).1.error
      = if ctx.noteflags device.toNat ≠ flags then .badPayload else .none := by
  rw [Fd.sricNoteSetFlags]
  simp only [hcheck]
  by_cases hne : ctx.noteflags device.toNat ≠ flags
  · have hserve : (Request.noteFlags (device.truncate 16) flags).serve P ctx.fd.ipc c
        = .ok (ctx.fd.ipc, [.reply c (.status eBadAddr)]) := by
      rw [Request.serve, toNat_truncate16 (checkAddress_lt hcheck),
        Ipc.setFlags_absent (checkAddress_lt hcheck) hk]
    obtain ⟨hw, hr⟩ := h.answered stale _ hserve (repliesTo_status c eBadAddr)
    have hsend : (Peer.fd P id c stale).sendCommand { ctx.clearError with
        noteflags := Function.update ctx.noteflags device.toNat flags } _ = _ :=
      Fd.sendCommand_badAddr _ hw hr
    rw [if_pos (show ctx.clearError.noteflags device.toNat ≠ flags from hne), if_pos hne,
      noteCommand_request]
    exact congrArg (fun r : Context Peer × Nat => r.1.error) hsend
  · rw [if_neg (show ¬ctx.clearError.noteflags device.toNat ≠ flags from hne), if_neg hne]
    rfl

/-- **One call for notes**: a device that the daemon does not know is
reported exactly if its address is not on the bus. -/
theorem notes_report_iff (h : Synced id c ctx) (stale : BitVec 64) (device : BitVec 32)
    (flags : BitVec 64) :
    NotesReport P ctx device ((Peer.fd P id c stale).sricNoteSetFlags ctx device flags)
      ↔ (InRange device → ctx.fd.ipc.devices.known P device.toNat = true) := by
  constructor
  · intro hx hr
    by_contra hk
    have hsuch := hx fun hreach => hk hreach.2
    have hrefused : ∀ e, checkAddress device false = some e → e = .noSuchAddress := by
      intro e he
      rw [setFlags_refused _ he] at hsuch
      exact hsuch
    rcases checkAddress_cases device false with ⟨hn, -⟩ | ⟨-, -, hc⟩ | ⟨-, hc⟩ | ⟨-, hc⟩
    · exact hn hr
    · cases hrefused _ hc
    · cases hrefused _ hc
    · rw [h.setFlags_absent stale hc (Bool.eq_false_iff.mpr hk)] at hsuch
      split at hsuch <;> cases hsuch
  · intro hk hun
    have hout : ¬InRange device := fun hr => hun ⟨hr, hk hr⟩
    rcases checkAddress_cases device false with ⟨-, hc⟩ | ⟨hr, -⟩ | ⟨h1, -⟩ | ⟨hr, -⟩
    · rw [setFlags_refused _ hc]
    · exact absurd hr hout
    · refine absurd ?_ hout
      rw [h1]
      exact ⟨by decide, by decide⟩
    · exact absurd hr hout

end Synced

/-! ## All sends -/

/-- **What a client is told** of a frame, or of flags, that it sends is
what the header says, exactly if the address is not on the bus or the
daemon has the device. -/
theorem send_errors_iff (P : Platform) (stale : BitVec 64) {id c : Nat} (ctx : Context Peer)
    (h : Synced id c ctx) :
    (∀ frame, TxReports P c ctx frame ((Peer.fd P id c stale).sricTx ctx frame)
      ↔ (InRange frame.address → ctx.fd.ipc.devices.known P frame.address.toNat = true))
    ∧ ∀ device flags,
      NotesReport P ctx device ((Peer.fd P id c stale).sricNoteSetFlags ctx device flags)
      ↔ (InRange device → ctx.fd.ipc.devices.known P device.toNat = true) :=
  ⟨h.tx_reports_iff stale, h.notes_report_iff stale⟩

/-- The first client of a daemon that knows these devices. -/
def firstOf (d : Devices) : Context Peer := .init ⟨{ Ipc.init.new with devices := d }, [], []⟩

theorem synced_first {d : Devices} (h : ∀ a, d.targets a = []) : Synced 1 0 (firstOf d) where
  connected := (fresh_first d h).toConnected
  unread := rfl

/-- A frame, and flags, for addresses that are not on the bus; and a frame
for a device that the daemon has, which is queued. -/
theorem send_errors_off_bus :
    TxReports .x86 0 (firstOf .reset)
        ⟨-3, -1, 0, List.replicate sricMaxPayloadSize 0, List.length_replicate⟩
        ((Peer.fd .x86 1 0 0).sricTx (firstOf .reset)
          ⟨-3, -1, 0, List.replicate sricMaxPayloadSize 0, List.length_replicate⟩)
      ∧ NotesReport .x86 (firstOf .reset) 200
        ((Peer.fd .x86 1 0 0).sricNoteSetFlags (firstOf .reset) 200 1)
      ∧ ∃ f ctx, Carries 0 ⟨2, -1, 1, List.replicate sricMaxPayloadSize 7, List.length_replicate⟩ f
        ∧ (Peer.fd .x86 1 0 0).sricTx (firstOf (Devices.reset.deviceAdd 2 4))
          ⟨2, -1, 1, List.replicate sricMaxPayloadSize 7, List.length_replicate⟩ = (ctx, 0)
        ∧ ctx.fd.queued = [f] := by
  have hreset := send_errors_iff .x86 0 _ (synced_first (d := .reset) fun _ => rfl)
  have hdevice := send_errors_iff .x86 0 _
    (synced_first (d := Devices.reset.deviceAdd 2 4) fun _ => rfl)
  refine ⟨(hreset.1 _).mpr fun h => absurd h.1 (by decide),
    (hreset.2 _ _).mpr fun h => absurd h.2 (by decide), ?_⟩
  have hreports := (hdevice.1
    ⟨2, -1, 1, List.replicate sricMaxPayloadSize 7, List.length_replicate⟩).mpr fun _ => by decide
  have hzero : ((Peer.fd .x86 1 0 0).sricTx (firstOf (Devices.reset.deviceAdd 2 4))
      ⟨2, -1, 1, List.replicate sricMaxPayloadSize 7, List.length_replicate⟩).2 = 0 := by
    decide +kernel
  obtain ⟨f, hf, hqueued⟩ := hreports.success.mp hzero
  exact ⟨f, _, hf, Prod.ext rfl hzero, hqueued⟩

/-- A frame with no payload at all, for a device that does not exist: the
error is the one for its payload. -/
theorem send_error_absent :
    ¬∀ (P : Platform) (stale : BitVec 64) (id c : Nat) (ctx : Context Peer), Synced id c ctx →
      (∀ frame, TxReports P c ctx frame ((Peer.fd P id c stale).sricTx ctx frame))
      ∧ ∀ device flags,
        NotesReport P ctx device ((Peer.fd P id c stale).sricNoteSetFlags ctx device flags) := by
  intro h
  have hx := (h .x86 0 1 0 _ (synced_first (d := .reset) fun _ => rfl)).1
    ⟨2, -1, 0, List.replicate sricMaxPayloadSize 0, List.length_replicate⟩
  have := hx.badPayload
  revert this
  decide +kernel

end Sricd
