import Sricd.Replies
import Sricd.Subscriptions

/-!
# From the bytes on the bus to the clients

The whole program: what `read` returns from the serial port goes through
`rx`, and every frame that it finds is processed there and then, between
any other callbacks. In any run, however the bytes were read, the frames
that have been processed are those whose last byte has been read, and a
client is sent the notes among them that it wanted when they came
(`bus_reaches_subscribers`).
-/

namespace Sricd

open Sricd.Lib

/-! ## Frames on the bus -/

/-- A frame of at most 64 bytes of payload with the checksum it should
have, as any device may send it. -/
structure BusFrame where
  bytes : List Byte
  isFrame : IsFrame bytes
  flag : isFramingByte (bytes.headD 0) = true
  length_le : bytes.length ≤ sricOverhead + payloadMax

namespace BusFrame

/-- The frame as it is on the line. -/
def wire (f : BusFrame) : List Byte := sricDeframer.wire (f.bytes.headD 0) f.bytes.tail

theorem carries (f : BusFrame) : sricDeframer.Carries (f.bytes.headD 0) f.bytes.tail f.bytes :=
  f.isFrame.carries f.flag f.length_le

/-- A message as the frame that it stands for. -/
def of (m : Message) : BusFrame where
  bytes := m.bytes
  isFrame := m.bytes_isFrame
  flag := rfl
  length_le := by
    rw [m.bytes_length]
    exact Nat.add_le_add_left m.data_le _

theorem calm (fs : List BusFrame) : sricStuffing.Calm (fs.map wire).flatten :=
  Deframer.calm_wires (D := sricDeframer) (fun f : BusFrame => f.bytes.headD 0)
    (fun f => f.bytes.tail) fun f _ => f.carries.nonempty

end BusFrame

/-- A read that `rx` returns from has fitted, where there was room. -/
theorem fits_of_rx {chunk : List Byte} {st st' : Rx} {fs : List (List Byte)} (hpos : st.rxpos ≤ 1)
    (hr : Sricd.rx st chunk = .ok (st', fs)) : Fits st chunk := by
  have hspace : st.space ≠ 0 := by
    have h140 : lineBufSize = 140 := rfl
    rw [Rx.space]
    omega
  rw [Sricd.rx, Rx.readIncoming] at hr
  by_cases hlen : chunk.length > st.space
  · rw [if_pos hlen] at hr
    cases hr
  rw [if_neg hlen] at hr
  by_cases hnil : chunk.length = 0
  · rw [if_pos ⟨hnil, hspace⟩] at hr
    cases hr
  · exact ⟨fun h => hnil (by rw [h]; rfl), Nat.le_of_not_gt hlen⟩

/-- A read of a calm stream. -/
theorem Deframed.rx_calm {s chunk : List Byte} {st st' : Rx} {fs fs' : List (List Byte)}
    (h : Deframed s st fs) (hu : st.unread = [] ∨ st.unread = [0x7D])
    (hc : sricStuffing.Calm (st.unread ++ chunk)) (hr : Sricd.rx st chunk = .ok (st', fs')) :
    Deframed (s ++ chunk) st' (fs ++ fs') ∧ (st'.unread = [] ∨ st'.unread = [0x7D]) := by
  have hfit : Fits st chunk := by
    have hpos : st.rxpos ≤ 1 := by
      rw [← h.inv.wf.unread_length]
      rcases hu with hu | hu
      · rw [hu]
        exact Nat.zero_le _
      · rw [hu]
        exact Nat.le_refl _
    exact fits_of_rx hpos hr
  obtain ⟨hov, hst⟩ := rxTurn_calm h.inv hfit hc
  exact ⟨h.rx hfit hov hr, (rx_drains h.inv hfit hr).2 hst⟩

/-- The reads of a calm stream. -/
theorem Deframed.run_calm {s rest : List Byte} {chunks : List (List Byte)} {st st' : Rx}
    {fs fs' : List (List Byte)} (h : Deframed s st fs)
    (hu : st.unread = [] ∨ st.unread = [0x7D])
    (hc : sricStuffing.Calm (s ++ chunks.flatten ++ rest))
    (hr : run Sricd.rx st chunks = .ok (st', fs')) :
    Deframed (s ++ chunks.flatten) st' (fs ++ fs')
      ∧ (st'.unread = [] ∨ st'.unread = [0x7D]) := by
  induction chunks generalizing s st fs fs' with
  | nil =>
      cases hr
      simpa using ⟨h, hu⟩
  | cons chunk chunks ih =>
      obtain ⟨st1, fs1, fs2, hs, hr', rfl⟩ := run_cons_ok.mp hr
      obtain ⟨c, hsplit, -⟩ := h.used
      have hinfix : st.unread ++ chunk <:+: s ++ (chunk :: chunks).flatten ++ rest :=
        ⟨c, chunks.flatten ++ rest, by rw [hsplit]; simp⟩
      have hcalm := hc.infix hinfix
      obtain ⟨h1, hu1⟩ := h.rx_calm hu hcalm hs
      have hrest := ih h1 hu1 (by simpa using hc) hr'
      simpa using hrest

/-- **What is received of frames**, in any reads. -/
theorem rx_frames {fs : List BusFrame} {chunks : List (List Byte)} {rest : List Byte} {st : Rx}
    {out : List (List Byte)} (hs : chunks.flatten ++ rest = (fs.map BusFrame.wire).flatten)
    (hr : run rx Rx.init chunks = .ok (st, out)) :
    ∃ n, out = (fs.take n).map BusFrame.bytes ∧ n ≤ fs.length
      ∧ ((fs.take n).map BusFrame.wire).flatten.length ≤ chunks.flatten.length
      ∧ (n < fs.length → chunks.flatten.length
          < ((fs.take (n + 1)).map BusFrame.wire).flatten.length) := by
  have hcalm : sricStuffing.Calm ([] ++ chunks.flatten ++ rest) := by
    rw [List.nil_append, hs]
    exact BusFrame.calm fs
  obtain ⟨hd, hu⟩ := deframed_init.run_calm (.inl rfl) hcalm hr
  obtain ⟨n, hn, hfr, hle, hlt⟩ :=
    Deframer.feed_frames_prefix (D := sricDeframer) (fun f : BusFrame => f.bytes.headD 0)
      (fun f => f.bytes.tail) BusFrame.bytes (fun f _ => f.carries) hs (s := .hunt) rfl
  have hfs := hd.frames hu
  rw [List.nil_append, List.nil_append, Deframer.frames, hfr] at hfs
  exact ⟨n, hfs, hn, hle, hlt⟩

/-! ## The program -/

/-- The receiver, and the rest of the daemon. -/
structure Program where
  rx : Rx
  daemon : Daemon

/-- A callback of the program. -/
inductive ProgramEvent where
  /-- `rx`, where `read` returns `chunk` -/
  | read (chunk : List Byte)
  /-- `rx`, where `read` fails -/
  | readError
  /-- any other, or something that a client does -/
  | other (ev : DaemonEvent)
deriving DecidableEq

/-- What is read from the serial port. -/
def ProgramEvent.reads : ProgramEvent → List (List Byte)
  | .read chunk => [chunk]
  | .readError | .other _ => []

namespace Program

/-- Behind `init`. -/
def init : Program where
  rx := .init
  daemon := .init

/-- The call of `proc_rx_frame` on a frame. -/
def process (frame : List Byte) : DaemonEvent := .sricIf (.frame frame)

def isProcess : DaemonEvent → Bool
  | .sricIf (.frame _) => true
  | _ => false

/-- One callback. `proc_rx_frame` is only called from `rx`. -/
def step (P : Platform) (s : Program) : ProgramEvent → Except Halt (Program × List DaemonOut)
  | .read chunk => do
      let (rx, frames) ← Sricd.rx s.rx chunk
      let (daemon, out) ← run (Daemon.step P) s.daemon (frames.map process)
      .ok (⟨rx, daemon⟩, out)
  | .readError => .error .exit
  | .other ev =>
      if isProcess ev then .error .disabled
      else do
        let (daemon, out) ← s.daemon.step P ev
        .ok (⟨s.rx, daemon⟩, out)

/-- The frames that are processed in a callback. -/
def frames (s : Program) : ProgramEvent → List (List Byte)
  | .read chunk => (Sricd.rx s.rx chunk).toOption.elim [] Prod.snd
  | .readError | .other _ => []

/-- The notes in a frame. -/
def frameNotes (frame : List Byte) : List Frame := (PackedFrame.ofBytes frame).notes

/-- The notes that come in in an event. -/
def busNotes : DaemonEvent → List Frame
  | .sricIf ev => ev.notes
  | .ipc _ => []

/-- What a callback is to the daemon behind the receiver. -/
def events (s : Program) : ProgramEvent → List DaemonEvent
  | .read chunk => (s.frames (.read chunk)).map process
  | .readError => []
  | .other ev => [ev]

/-- The frames of a kind that a callback passes to `send_rx` for a client. -/
def received (P : Platform) (k : Poll) (c : Nat) (s : Program) (ev : ProgramEvent) : List Frame :=
  history (Daemon.step P) (Daemon.received P k c) s.daemon (s.events ev)

/-- What a callback is to a client's notes. -/
def noteFeed (P : Platform) (c : Nat) (s : Program) (ev : ProgramEvent) : NoteFeed :=
  history (Daemon.step P) (Daemon.noteFeed P c) s.daemon (s.events ev)

section
variable {P : Platform} {s t : Program} {evs : List ProgramEvent} {out : List DaemonOut}

theorem read_ok {chunk : List Byte} (h : step P s (.read chunk) = .ok (t, out)) :
    Sricd.rx s.rx chunk = .ok (t.rx, s.frames (.read chunk))
      ∧ run (Daemon.step P) s.daemon (s.events (.read chunk)) = .ok (t.daemon, out) := by
  rw [step] at h
  obtain ⟨⟨rx, fs⟩, hrx, h⟩ := bind_ok.mp h
  obtain ⟨⟨daemon, out'⟩, hd, h⟩ := bind_ok.mp h
  cases h
  have hframes : s.frames (.read chunk) = fs := by
    rw [frames, hrx]
    rfl
  rw [events, hframes]
  exact ⟨hrx, hd⟩

theorem other_ok {ev : DaemonEvent} (h : step P s (.other ev) = .ok (t, out)) :
    t.rx = s.rx ∧ s.daemon.step P ev = .ok (t.daemon, out) ∧ isProcess ev = false := by
  rw [step] at h
  split at h
  · cases h
  rename_i hev
  obtain ⟨⟨daemon, out'⟩, hd, h⟩ := bind_ok.mp h
  cases h
  exact ⟨rfl, hd, Bool.eq_false_iff.mpr hev⟩

/-- The receiver of a run. -/
theorem rx_run (hr : run (step P) s evs = .ok (t, out)) :
    run Sricd.rx s.rx (evs.flatMap ProgramEvent.reads)
      = .ok (t.rx, history (step P) frames s evs) := by
  rw [← history_flatMap ProgramEvent.reads hr]
  refine run_part (fun u ev v o hs => ?_) hr
  cases ev with
  | read chunk => exact run_single.mpr (read_ok hs).1
  | readError => cases hs
  | other ev =>
      rw [(other_ok hs).1]
      rfl

/-- The daemon behind the receiver. -/
theorem step_run {ev : ProgramEvent} (h : step P s ev = .ok (t, out)) :
    run (Daemon.step P) s.daemon (s.events ev) = .ok (t.daemon, out) := by
  cases ev with
  | read chunk => exact (read_ok h).2
  | readError => cases h
  | other ev => exact run_single.mpr (other_ok h).2.1

theorem daemon_runs (P : Platform) :
    PartRuns (step P) (Daemon.step P) Program.daemon events := fun _ _ _ o h => ⟨o, step_run h⟩

/-- The notes that are published in a callback of the daemon. -/
theorem daemon_items (P : Platform) (c : Nat) (d : Daemon) (ev : DaemonEvent) :
    Feed.items (d.noteFeed P c ev) = busNotes ev := by
  cases ev with
  | sricIf ev => exact Feed.items_publish ev.notes
  | ipc ev =>
      rw [Daemon.noteFeed, history_hom rfl Feed.items_append]
      have hnone : ∀ (u : Ipc) (call : ClientCall),
          Feed.items (settings c (call.registrations P u)) = [] := fun u call =>
        Feed.items_set ..
      simp only [hnone]
      exact history_none ..

/-- The notes in the frames of a callback are those that it publishes. -/
theorem items_eq (c : Nat) {ev : ProgramEvent} (hs : step P s ev = .ok (t, out)) :
    Feed.items (s.noteFeed P c ev) = (s.frames ev).flatMap frameNotes := by
  obtain ⟨ps, hps⟩ := daemon_runs P s ev t out hs
  have hitems : Feed.items (s.noteFeed P c ev) = (s.events ev).flatMap busNotes := by
    rw [noteFeed, history_hom rfl Feed.items_append]
    simp only [daemon_items]
    exact history_flatMap _ hps
  rw [hitems]
  cases ev with
  | read chunk => rw [events, List.flatMap_map]; rfl
  | readError => cases hs
  | other ev =>
      have hev := (other_ok hs).2.2
      show busNotes ev ++ [] = []
      cases ev with
      | sricIf ev =>
          cases ev with
          | frame bytes => cases hev
          | _ => rfl
      | ipc ev => rfl

end

/-- **From the bus to the clients.** In any run of the program whose reads
are the beginning of some frames on the bus, the frames that have been
processed are those whose last byte has been read. The notes that have been
sent to a client, and then those that wait for one, are the notes in these
frames that it wanted when they came. -/
theorem bus_reaches_subscribers {P : Platform} {fs : List BusFrame} {rest : List Byte}
    {evs : List ProgramEvent} {s : Program} {out : List DaemonOut}
    (hr : run (step P) init evs = .ok (s, out))
    (hbus : (evs.flatMap ProgramEvent.reads).flatten ++ rest = (fs.map BusFrame.wire).flatten) :
    ∃ n, n ≤ fs.length
      ∧ ((fs.take n).map BusFrame.wire).flatten.length
          ≤ (evs.flatMap ProgramEvent.reads).flatten.length
      ∧ (n < fs.length → (evs.flatMap ProgramEvent.reads).flatten.length
          < ((fs.take (n + 1)).map BusFrame.wire).flatten.length)
      ∧ history (step P) frames init evs = (fs.take n).map BusFrame.bytes
      ∧ ∀ c, Feed.items (history (step P) (noteFeed P c) init evs)
          = ((fs.take n).flatMap fun f => frameNotes f.bytes)
        ∧ ∀ cl, s.daemon.ipc.clients c = some cl →
          history (step P) (received P .note c) init evs ++ (cl.box .note).q
            = Feed.wanted (hits P) Frame.source (fun _ => 0)
              (history (step P) (noteFeed P c) init evs) := by
  obtain ⟨n, hframes, hn, hle, hlt⟩ := rx_frames hbus (rx_run hr)
  refine ⟨n, hn, hle, hlt, hframes, fun c => ⟨?_, fun cl hc => ?_⟩⟩
  · have hitems : Feed.items (history (step P) (noteFeed P c) init evs)
        = (history (step P) frames init evs).flatMap frameNotes := by
      rw [history_hom rfl Feed.items_append,
        history_hom (f := fun fs : List (List Byte) => fs.flatMap frameNotes) rfl
          fun _ _ => List.flatMap_append]
      exact history_congr_run (I := fun _ => True)
        (fun u ev v o _ hs => ⟨trivial, items_eq c hs⟩) trivial hr
    rw [hitems, hframes, List.flatMap_map]
  · obtain ⟨ps, hps⟩ := (daemon_runs P).run hr
    have hreceived : history (step P) (received P .note c) init evs
        = history (Daemon.step P) (Daemon.received P .note c) Daemon.init
          (history (step P) events init evs) := ((daemon_runs P).history_eq _ hr).symm
    have hfeed : history (step P) (noteFeed P c) init evs
        = history (Daemon.step P) (Daemon.noteFeed P c) Daemon.init
          (history (step P) events init evs) := ((daemon_runs P).history_eq _ hr).symm
    rw [hreceived, hfeed]
    exact (Daemon.received_pushed hps hc).trans (Daemon.pushed_wanted hps c)

/-- A frame is written, in `w` bytes, and its ack is read. -/
def exchange (id w : Nat) (source : Byte) (payload : List Byte) : List ProgramEvent :=
  [.other (.sricIf (.ifTx id (some w))),
    .read (sricDeframer.wire 0x7E (ackBytes source payload).tail)]

/-- The frame of a device, where there is room for the payload. -/
def sentBy (source dest : Byte) (payload : List Byte) : List BusFrame :=
  if h : payload.length ≤ payloadMax then [.of ⟨source, dest, payload, h⟩] else []

/-- What is sent on the bus while one device is enumerated, and then three
notes of the device. -/
def sentOnBus : List BusFrame :=
  (oneDevice [] (fun _ => []) (fun _ => []) (fun _ => [])
      (fun _ _ source payload => [sentBy source 0x81 payload])).flatten
    ++ sentBy 2 1 [5] ++ sentBy 2 1 [6] ++ sentBy 2 1 [5]

/-- The enumeration of a bus with one device, behind which a client
connects. -/
def connected : List ProgramEvent :=
  oneDevice (.other (.sricIf .enumStart)) (fun id => .other (.sricIf (.killToken id)))
      (fun id => .other (.sricIf (.sendReset id)))
      (fun id => .other (.sricIf (.ifTx id (some 7)))) exchange
    ++ [.other (.ipc (.new 1))]

/-- A client asks for note 5 of the device, which sends the notes 5, 6 and
5. They are read in pieces, and the end of the third one has not been. -/
def noted : List ProgramEvent :=
  connected
    ++ [.other (.ipc (.sent 0 (Request.noteFlags 2 32).bytes)),
      .other (.ipc (.incoming 2 0 0)), .read [0x7E, 1, 2], .read [1, 5, 146, 90, 0x7E, 1],
      .other (.ipc (.sent 0 (Request.poll .note 0).bytes)), .other (.ipc (.incoming 2 0 0)),
      .read [2, 1, 6, 210, 91, 0x7E, 1, 2, 1, 5, 146]]

theorem bus_reaches_subscribers_noted :
    ∃ s out cl n, run (step .x86) init noted = .ok (s, out) ∧ s.daemon.ipc.clients 0 = some cl
      ∧ n ≤ sentOnBus.length
      ∧ history (step .x86) (received .x86 .note 0) init noted = [⟨2, 1, 5, [5]⟩]
      ∧ history (step .x86) frames init noted = (sentOnBus.take n).map BusFrame.bytes
      ∧ history (step .x86) (received .x86 .note 0) init noted ++ (cl.box .note).q
          = Feed.wanted (hits .x86) Frame.source (fun _ => 0)
            (history (step .x86) (noteFeed .x86 0) init noted) := by
  have hbus : (noted.flatMap ProgramEvent.reads).flatten
      ++ (sentOnBus.map BusFrame.wire).flatten.drop 114 = (sentOnBus.map BusFrame.wire).flatten := by
    decide +kernel
  have hreceived : history (step .x86) (received .x86 .note 0) init noted = [⟨2, 1, 5, [5]⟩] := by
    decide +kernel
  obtain ⟨⟨s, out⟩, hr, hp⟩ := ok_of_any (r := run (step .x86) init noted)
    (p := fun p => (p.1.daemon.ipc.clients 0).isSome) (by decide +kernel)
  obtain ⟨cl, hc⟩ := Option.isSome_iff_exists.mp hp
  obtain ⟨n, hn, -, -, hframes, hwanted⟩ := bus_reaches_subscribers hr hbus
  exact ⟨s, out, cl, n, hr, hc, hn, hreceived, hframes, (hwanted 0).2 cl hc⟩

end Program

end Sricd
