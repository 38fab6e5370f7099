import Sricd.Libsric

/-!
# The formats on the socket

`libsric` and the daemon have a hand-written codec each. They agree: what
the library writes is read by the daemon as what was meant, and the other
way round (`formats_agree`). The library does not know which devices
exist; flags for one that does not are answered with an error and not
stored (`absent_notes_not_set`).
-/

namespace Sricd

open Sricd.Lib

/-! ## What the library writes -/

theorem sendCommand_sent (ctx : Context Line) (data : List Byte) :
    (Line.fd.sendCommand ctx data).1.fd.sent = ctx.fd.sent ++ data := by
  rw [(Line.fd.sendCommand_rest ctx data).2 rfl]
  rfl

/-- Reading does not write. -/
theorem readData_sent (ctx : Context Line) (n : Nat) :
    (Line.fd.readData ctx n).1.fd.sent = ctx.fd.sent := by
  rw [Fd.readData]
  dsimp only [Line.fd]
  split <;> rfl

theorem pollPayload_sent {ctx : Context Line} {frame : SricFrame}
    {r : Context Line × SricFrame × Nat} (h : Line.fd.pollPayload ctx frame = .ok r) :
    r.1.fd.sent = ctx.fd.sent := by
  rw [Fd.pollPayload] at h
  split at h
  · cases h
    rfl
  · dsimp only at h
    split at h
    · cases h
      exact readData_sent ..
    · cases h

theorem sricPoll_sent {ctx : Context Line} {frame : SricFrame} {timeout : BitVec 32} {type : Byte}
    {r : Context Line × SricFrame × Nat}
    (h : Line.fd.sricPoll ctx frame timeout type = .ok r) :
    r.1.fd.sent = ctx.fd.sent ++ Fd.pollCommand timeout type := by
  have hsent := sendCommand_sent ctx.clearError (Fd.pollCommand timeout type)
  rw [Fd.sricPoll] at h
  generalize Line.fd.sendCommand ctx.clearError (Fd.pollCommand timeout type) = p at h hsent
  obtain ⟨ctx1, rv1⟩ := p
  dsimp only at h hsent
  split at h
  · cases h
    exact hsent
  -- three fields are read in turn, and then the payload
  have hread1 := readData_sent ctx1 2
  generalize Line.fd.readData ctx1 2 = p at h hread1
  obtain ⟨ctx2, sdata2, rv2⟩ := p
  dsimp only at h hread1
  split at h
  · cases h
    exact hread1.trans hsent
  have hread2 := readData_sent ctx2 2
  generalize Line.fd.readData ctx2 2 = p at h hread2
  obtain ⟨ctx3, sdata3, rv3⟩ := p
  dsimp only at h hread2
  split at h
  · cases h
    exact hread2.trans (hread1.trans hsent)
  have hread3 := readData_sent ctx3 2
  generalize Line.fd.readData ctx3 2 = p at h hread3
  obtain ⟨ctx4, sdata4, rv4⟩ := p
  dsimp only at h hread3
  split at h
  · cases h
    exact hread3.trans (hread2.trans (hread1.trans hsent))
  · exact (pollPayload_sent h).trans (hread3.trans (hread2.trans (hread1.trans hsent)))

/-! ## The requests behind the commands -/

theorem pollCommand_request (timeout : BitVec 32) (k : Poll) :
    Fd.pollCommand timeout (Request.poll k timeout).cmd = (Request.poll k timeout).bytes := by
  rw [Fd.pollCommand, byte_sshiftRight _ (by decide), byte_sshiftRight _ (by decide),
    byte_sshiftRight _ (by decide), byte_sshiftRight _ (by decide)]
  rfl

/-- The payload that is sent. -/
def SricFrame.sent (frame : SricFrame) : List Byte :=
  frame.payload.take frame.payloadLength.toNat

theorem sent_length {frame : SricFrame} (h : frame.payloadLength.toNat ≤ sricMaxPayloadSize) :
    frame.sent.length = frame.payloadLength.toNat := by
  rw [SricFrame.sent, List.length_take, frame.payload_size, Nat.min_eq_left h]

theorem txCommand_request {frame : SricFrame}
    (h : frame.payloadLength.toNat ≤ sricMaxPayloadSize) (hlt : frame.sent.length < 2 ^ 16) :
    Fd.txCommand frame = (Request.tx (frame.address.truncate 16) frame.sent hlt).bytes := by
  have h64 : sricMaxPayloadSize = 64 := rfl
  have hlo : frame.payloadLength.extractLsb' 0 8 = BitVec.ofNat 8 frame.sent.length := by
    rw [sent_length h]
    apply BitVec.eq_of_toNat_eq
    rw [BitVec.extractLsb'_toNat, BitVec.toNat_ofNat, Nat.shiftRight_zero]
  have hhi : frame.payloadLength.extractLsb' 8 8 = BitVec.ofNat 8 (frame.sent.length / 256) := by
    rw [sent_length h]
    apply BitVec.eq_of_toNat_eq
    rw [BitVec.extractLsb'_toNat, BitVec.toNat_ofNat, Nat.shiftRight_eq_div_pow]
  rw [Fd.txCommand, byte_sshiftRight _ (by decide), byte_and, byte_and,
    byte_sshiftRight _ (by decide), hlo, hhi, ← extract_truncate frame.address (k := 8) (by decide),
    ← extract_truncate frame.address (k := 0) (by decide)]
  rfl

/-! ## The agreement -/

namespace Poll

/-- `sric_poll_rx` or `sric_poll_note`. -/
def call {κ : Type} : Poll → Fd κ → Context κ → SricFrame → BitVec 32 →
    Except Halt (Context κ × SricFrame × Nat)
  | .rx => Fd.sricPollRx
  | .note => Fd.sricPollNote

theorem call_eq {κ : Type} (k : Poll) (F : Fd κ) (ctx : Context κ) (frame : SricFrame)
    (timeout : BitVec 32) :
    k.call F ctx frame timeout = F.sricPoll ctx frame timeout (Request.poll k timeout).cmd := by
  cases k <;> rfl

end Poll

/-- A frame that `check_frame` accepts, for a device that exists, is pushed
as it is. -/
def TxAgrees (P : Platform) : Prop :=
  ∀ (ctx : Context Line) (frame : SricFrame) (s : Ipc) (id c : Nat) (closed : Bool)
    (stale : BitVec 64),
    checkFrame frame = none → s.devices.known P frame.address.toNat = true →
    ∃ f : FrameT,
      (s.setSocket c ⟨ctx.fd.written (Line.fd.sricTx ctx frame).1.fd, closed⟩).clientIncoming
          P id c stale
        = .ok (s.setSocket c ⟨[], closed⟩, [.push f, .reply c (.status eSuccess)])
      ∧ f.type = .sric ∧ f.tag = .client c ∧ f.address = frame.address.toNat
      ∧ f.payload.length = frame.payloadLength.toNat
      ∧ f.payload = frame.payload.take frame.payloadLength.toNat

/-- The flags that the library sends are set for the device they were
meant for. -/
def NotesSet (P : Platform) (ctx : Context Line) (device : BitVec 32) (flags : BitVec 64) (s : Ipc)
    (id c : Nat) (cl : Client) (closed : Bool) (stale : BitVec 64) : Prop :=
  (s.setSocket c ⟨ctx.fd.written (Line.fd.sricNoteSetFlags ctx device flags).1.fd,
      closed⟩).clientIncoming P id c stale
    = .ok ({ s.setSocket c ⟨[], closed⟩ with
        devices := s.devices.setClientNotes device.toNat c flags }.setClient c
          (cl.setNoteData P device.toNat flags), [.reply c (.status eSuccess)])

/-- Flags that the library sends, for a device that exists, are set. -/
def NoteFlagsAgree (P : Platform) : Prop :=
  ∀ (ctx : Context Line) (device : BitVec 32) (flags : BitVec 64) (s : Ipc) (id c : Nat)
    (cl : Client) (closed : Bool) (stale : BitVec 64),
    2 ≤ device.toNat → device.toNat < sricHighAddress → ctx.noteflags device.toNat ≠ flags →
    s.clients c = some cl → s.devices.known P device.toNat = true →
    NotesSet P ctx device flags s id c cl closed stale

/-- A timeout is read as it was given. -/
def PollAgrees (P : Platform) : Prop :=
  ∀ (k : Poll) (ctx : Context Line) (frame : SricFrame) (timeout : BitVec 32)
    (r : Context Line × SricFrame × Nat) (s : Ipc) (id c : Nat) (closed : Bool)
    (stale : BitVec 64),
    k.call Line.fd ctx frame timeout = .ok r →
    (s.setSocket c ⟨ctx.fd.written r.1.fd, closed⟩).clientIncoming P id c stale
      = (s.setSocket c ⟨[], closed⟩).poll k c timeout

/-- A frame of the daemon is received as it was, from the bytes that it was
written as and no more. -/
def ReplyAgrees : Prop :=
  ∀ (k : Poll) (ctx : Context Line) (frame : SricFrame) (timeout : BitVec 32) (f : Frame)
    (rest : List Byte),
    f.payload.length ≤ payloadMax → ctx.fd.incoming = (Reply.frame f).bytes ++ rest →
    ∃ ctx' frame', k.call Line.fd ctx frame timeout = .ok (ctx', frame', 0)
      ∧ ctx'.fd.incoming = rest
      ∧ frame'.address.toInt = f.sourceAddress.toNat ∧ frame'.note.toInt = f.note.toNat
      ∧ frame'.payloadLength.toInt = f.payload.length
      ∧ frame'.payload.take f.payload.length = f.payload

theorem written_of_sent {l l' : Line} {bytes : List Byte} (h : l'.sent = l.sent ++ bytes) :
    l.written l' = bytes := by
  rw [Line.written, h, List.drop_left]

/-- The daemon serves the request that it finds. -/
theorem clientIncoming_bytes (P : Platform) (s : Ipc) (id c : Nat) (closed : Bool)
    (stale : BitVec 64) (q : Request) :
    (s.setSocket c ⟨q.bytes, closed⟩).clientIncoming P id c stale
      = q.serve P (s.setSocket c ⟨[], closed⟩) c := by
  rw [Ipc.clientIncoming_request P (q := q) (by rw [Ipc.setSocket_sockets]),
    Ipc.setSocket_setSocket, Ipc.setSocket_sockets]

theorem txAgrees (P : Platform) : TxAgrees P := by
  intro ctx frame s id c closed stale hcheck hknown
  have h64 : sricMaxPayloadSize = 64 := rfl
  have hmax : payloadMax = 64 := rfl
  obtain ⟨haddr, hlen⟩ := checkFrame_none hcheck
  have hsent := sent_length hlen
  have hlt : frame.sent.length < 2 ^ 16 := by omega
  have hwritten : ctx.fd.written (Line.fd.sricTx ctx frame).1.fd
      = (Request.tx (frame.address.truncate 16) frame.sent hlt).bytes := by
    apply written_of_sent
    rw [Fd.sricTx]
    simp only [hcheck]
    rw [sendCommand_sent, txCommand_request hlen hlt]
    rfl
  have hfit : frame.sent.length ≤ payloadMax := by omega
  refine ⟨⟨.sric, frame.address.toNat, .client c, frame.sent, hfit⟩, ?_, rfl, rfl, rfl, hsent, rfl⟩
  rw [hwritten, clientIncoming_bytes, Request.serve, dif_pos hfit,
    toNat_truncate16 haddr]
  exact Ipc.transmit_known (s := s.setSocket c ⟨[], closed⟩) haddr hknown c

/-- Flags that differ from the ones last sent come to the daemon. -/
theorem noteFlags_served (P : Platform) {ctx : Context Line} {device : BitVec 32}
    {flags : BitVec 64} (h2 : 2 ≤ device.toNat) (h128 : device.toNat < sricHighAddress)
    (hne : ctx.noteflags device.toNat ≠ flags) (s : Ipc) (id c : Nat) (closed : Bool)
    (stale : BitVec 64) :
    (s.setSocket c ⟨ctx.fd.written (Line.fd.sricNoteSetFlags ctx device flags).1.fd,
        closed⟩).clientIncoming P id c stale
      = (s.setSocket c ⟨[], closed⟩).setFlags P c device.toNat flags := by
  have hwritten : ctx.fd.written (Line.fd.sricNoteSetFlags ctx device flags).1.fd
      = (Request.noteFlags (device.truncate 16) flags).bytes := by
    apply written_of_sent
    rw [Fd.sricNoteSetFlags]
    simp only [checkAddress_none false h2 h128]
    rw [if_pos (show ctx.clearError.noteflags device.toNat ≠ flags from hne), sendCommand_sent,
      noteCommand_request]
    rfl
  rw [hwritten, clientIncoming_bytes, Request.serve, toNat_truncate16 h128]

theorem noteFlagsAgree (P : Platform) : NoteFlagsAgree P := by
  intro ctx device flags s id c cl closed stale h2 h128 hne hc hknown
  rw [NotesSet, noteFlags_served P h2 h128 hne]
  exact Ipc.setFlags_known (s := s.setSocket c ⟨[], closed⟩) h128 hknown hc flags

theorem noteFlags_absent (P : Platform) {ctx : Context Line} {device : BitVec 32}
    {flags : BitVec 64} (h2 : 2 ≤ device.toNat) (h128 : device.toNat < sricHighAddress)
    (hne : ctx.noteflags device.toNat ≠ flags) {s : Ipc}
    (hknown : s.devices.known P device.toNat = false) (id c : Nat) (closed : Bool)
    (stale : BitVec 64) :
    (s.setSocket c ⟨ctx.fd.written (Line.fd.sricNoteSetFlags ctx device flags).1.fd,
        closed⟩).clientIncoming P id c stale
      = .ok (s.setSocket c ⟨[], closed⟩, [.reply c (.status eBadAddr)]) := by
  rw [noteFlags_served P h2 h128 hne]
  exact Ipc.setFlags_absent (s := s.setSocket c ⟨[], closed⟩) h128 hknown c flags

theorem pollAgrees (P : Platform) : PollAgrees P := by
  intro k ctx frame timeout r s id c closed stale h
  rw [k.call_eq] at h
  rw [written_of_sent (sricPoll_sent h), pollCommand_request, clientIncoming_bytes]
  rfl

/-- The status 0 is read as success. -/
theorem sendCommand_line {ctx : Context Line} {rest : List Byte} (data : List Byte)
    (h : ctx.fd.incoming = 0 :: rest) :
    ∃ ctx', Line.fd.sendCommand ctx data = (ctx', 0) ∧ ctx'.fd.incoming = rest := by
  have hread : Line.fd.read ⟨ctx.fd.sent ++ data, ctx.fd.incoming⟩ 1
      = (⟨ctx.fd.sent ++ data, rest⟩, [0]) := by
    dsimp only [Line.fd]
    rw [h]
    rfl
  exact ⟨_, Line.fd.sendCommand_success rfl hread, rfl⟩

/-- Bytes that are there are read. -/
theorem readData_line {ctx : Context Line} {buf rest : List Byte} {n : Nat}
    (h : ctx.fd.incoming = buf ++ rest) (hn : buf.length = n) :
    ∃ ctx', Line.fd.readData ctx n = (ctx', buf, 0) ∧ ctx'.fd.incoming = rest := by
  subst hn
  refine ⟨{ ctx with fd := ⟨ctx.fd.sent, rest⟩ }, ?_, rfl⟩
  rw [Fd.readData]
  dsimp only [Line.fd]
  rw [h, List.take_left, List.drop_left, if_neg (not_not.mpr rfl)]

/-- A field of the reply is one byte, in two. -/
theorem ntohs_byte (b : Byte) : (ntohs [0, b]).toNat = b.toNat ∧ (ntohs [0, b]).toInt = b.toNat := by
  have hb := b.isLt
  have hnat : (ntohs [0, b]).toNat = b.toNat := by
    show ((0#8 ++ b).zeroExtend 32).toNat = b.toNat
    rw [BitVec.zeroExtend, BitVec.toNat_setWidth, BitVec.toNat_append]
    show (0 <<< 8 ||| b.toNat) % 2 ^ 32 = b.toNat
    rw [Nat.zero_shiftLeft, Nat.zero_or]
    exact Nat.mod_eq_of_lt (by omega)
  refine ⟨hnat, ?_⟩
  rw [BitVec.toInt_eq_toNat_cond, hnat, if_pos (by omega)]

theorem pollPayload_line {ctx : Context Line} (frame : SricFrame) {payload rest : List Byte}
    (hlen : payload.length ≤ sricMaxPayloadSize)
    (hpl : frame.payloadLength.toNat = payload.length) (h : ctx.fd.incoming = payload ++ rest) :
    ∃ ctx' frame', Line.fd.pollPayload ctx frame = .ok (ctx', frame', 0)
      ∧ ctx'.fd.incoming = rest ∧ frame'.address = frame.address ∧ frame'.note = frame.note
      ∧ frame'.payloadLength = frame.payloadLength
      ∧ frame'.payload.take payload.length = payload := by
  rw [Fd.pollPayload]
  by_cases h0 : frame.payloadLength = 0
  · have hnil : payload = [] := by
      rw [h0] at hpl
      exact List.length_eq_zero_iff.mp hpl.symm
    subst hnil
    rw [if_pos h0]
    exact ⟨ctx, frame, rfl, h, rfl, rfl, rfl, rfl⟩
  · obtain ⟨ctx', hread, hrest⟩ := readData_line h hpl.symm
    rw [if_neg h0, hread]
    dsimp only
    rw [dif_pos hlen]
    refine ⟨_, _, rfl, hrest, rfl, rfl, rfl, ?_⟩
    exact take_writeAt (Nat.zero_le _) (Nat.zero_add _).symm

theorem replyAgrees : ReplyAgrees := by
  intro k ctx frame timeout f rest hlen hin
  have h64 : payloadMax = 64 := rfl
  have hin0 : ctx.clearError.fd.incoming = 0 :: ([0, f.sourceAddress] ++ ([0, f.note]
      ++ ([0, BitVec.ofNat 8 f.payload.length] ++ (f.payload ++ rest)))) := by
    have hnote : f.note >>> 8 = 0 := BitVec.ushiftRight_eq_zero (Nat.le_refl _)
    show ctx.fd.incoming = _
    rw [hin, Reply.bytes, hnote]
    simp [eSuccess]
  -- the status, and the three fields in turn
  obtain ⟨ctx1, h1, hin1⟩ :=
    sendCommand_line (Fd.pollCommand timeout (Request.poll k timeout).cmd) hin0
  obtain ⟨ctx2, h2, hin2⟩ := readData_line hin1 rfl
  obtain ⟨ctx3, h3, hin3⟩ := readData_line hin2 rfl
  obtain ⟨ctx4, h4, hin4⟩ := readData_line hin3 rfl
  have hbyte : (BitVec.ofNat 8 f.payload.length).toNat = f.payload.length := by
    rw [BitVec.toNat_ofNat]
    exact Nat.mod_eq_of_lt (by omega)
  obtain ⟨hpl, hpi⟩ := ntohs_byte (BitVec.ofNat 8 f.payload.length)
  rw [hbyte] at hpl hpi
  obtain ⟨ctx5, frame', h5, hin5, haddr, hnote, hlen5, hpay⟩ :=
    pollPayload_line { frame with
      address := ntohs [0, f.sourceAddress]
      note := ntohs [0, f.note]
      payloadLength := ntohs [0, BitVec.ofNat 8 f.payload.length] } hlen hpl hin4
  refine ⟨ctx5, frame', ?_, hin5, ?_, ?_, ?_, hpay⟩
  · rw [k.call_eq, Fd.sricPoll, h1]
    dsimp only
    rw [List.length_cons, List.length_singleton] at h2 h3 h4
    rw [if_neg (not_not.mpr rfl), h2]
    dsimp only
    rw [if_neg (not_not.mpr rfl), h3]
    dsimp only
    rw [if_neg (not_not.mpr rfl), h4]
    dsimp only
    rw [if_neg (not_not.mpr rfl), h5]
  · rw [haddr]
    exact (ntohs_byte _).2
  · rw [hnote]
    exact (ntohs_byte _).2
  · rw [hlen5]
    exact hpi

/-- **What one side writes, the other side reads**: frames to transmit and
note flags for devices that exist, timeouts, and the frames of the
daemon. -/
theorem formats_agree (P : Platform) :
    TxAgrees P ∧ NoteFlagsAgree P ∧ PollAgrees P ∧ ReplyAgrees :=
  ⟨txAgrees P, noteFlagsAgree P, pollAgrees P, replyAgrees⟩

/-- A full payload, broadcast; the flags of one device; a poll for notes
with a timeout of 100; and the reply to a poll. -/
theorem formats_agree_full :
    (∃ f : FrameT,
      (Ipc.init.new.setSocket 0 ⟨Line.written ⟨[], []⟩ (Line.fd.sricTx (.init ⟨[], []⟩)
          ⟨0, -1, 64, List.replicate 64 0x7E, rfl⟩).1.fd, false⟩).clientIncoming .x86 1 0 0
        = .ok (Ipc.init.new.setSocket 0 ⟨[], false⟩, [.push f, .reply 0 (.status eSuccess)])
      ∧ f.type = .sric ∧ f.tag = .client 0 ∧ f.address = 0 ∧ f.payload.length = 64
      ∧ f.payload = List.replicate 64 0x7E)
    ∧ NotesSet .x86 (.init ⟨[], []⟩) 2 (-1)
        { Ipc.init.new with devices := Ipc.init.devices.deviceAdd 2 5 } 1 0 .create false 0
    ∧ (∃ ctx frame, Line.fd.sricPollNote (.init ⟨[], [eTimeout]⟩)
          ⟨0, 0, 0, List.replicate 64 0, rfl⟩ 100 = .ok (ctx, frame, 1)
        ∧ (Ipc.init.new.setSocket 0 ⟨Line.written ⟨[], [eTimeout]⟩ ctx.fd, false⟩).clientIncoming
            .x86 1 0 0 = (Ipc.init.new.setSocket 0 ⟨[], false⟩).poll .note 0 100)
    ∧ ∃ ctx frame, Line.fd.sricPollRx (.init ⟨[], (Reply.frame ⟨2, 1, 0, [0x7E]⟩).bytes ++ [0]⟩)
          ⟨0, 0, 0, List.replicate 64 0, rfl⟩ (-1) = .ok (ctx, frame, 0)
        ∧ ctx.fd.incoming = [0] ∧ frame.address.toInt = 2 ∧ frame.note.toInt = 0
        ∧ frame.payloadLength.toInt = 1 ∧ frame.payload.take 1 = [0x7E] := by
  refine ⟨?_, ?_, ?_, ?_⟩
  · exact (formats_agree .x86).1 (.init ⟨[], []⟩) ⟨0, -1, 64, List.replicate 64 0x7E, rfl⟩
      Ipc.init.new 1 0 false 0 (by decide) (by decide)
  · exact (formats_agree .x86).2.1 (.init ⟨[], []⟩) 2 (-1)
      { Ipc.init.new with devices := Ipc.init.devices.deviceAdd 2 5 } 1 0 .create false 0
      (by decide) (by decide) (by decide) rfl (by decide)
  · obtain ⟨⟨ctx, frame, n⟩, hcall, hn⟩ := ok_of_any
      (r := Line.fd.sricPollNote (.init ⟨[], [eTimeout]⟩) ⟨0, 0, 0, List.replicate 64 0, rfl⟩ 100)
      (p := fun r => r.2.2 == 1) (by decide +kernel)
    obtain rfl : n = 1 := beq_iff_eq.mp hn
    exact ⟨ctx, frame, hcall,
      (formats_agree .x86).2.2.1 .note (.init ⟨[], [eTimeout]⟩) _ 100 _ Ipc.init.new 1 0 false 0 hcall⟩
  · exact (formats_agree .x86).2.2.2 .rx (.init ⟨[], _⟩) _ (-1) ⟨2, 1, 0, [0x7E]⟩ [0] (by decide) rfl

/-- Without devices, the flags that the library sends for address 2 are not
set. -/
theorem absent_notes_not_set :
    ¬∀ (P : Platform) (ctx : Context Line) (device : BitVec 32) (flags : BitVec 64) (s : Ipc)
      (id c : Nat) (cl : Client) (closed : Bool) (stale : BitVec 64),
      2 ≤ device.toNat → device.toNat < sricHighAddress → ctx.noteflags device.toNat ≠ flags →
      s.clients c = some cl → NotesSet P ctx device flags s id c cl closed stale := by
  intro h
  have hset := h .x86 (.init ⟨[], []⟩) 2 1 Ipc.init.new 1 0 .create false 0 (by decide) (by decide)
    (by decide) rfl
  rw [NotesSet, noteFlags_absent .x86 (by decide) (by decide) (by decide) rfl] at hset
  have hout := (Prod.mk.inj (Except.ok.inj hset)).2
  exact absurd hout (by decide)

end Sricd
