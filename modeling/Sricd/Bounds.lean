import Sricd.Daemon
import Sricd.Incoming
import Sricd.Ledger

/-!
# What clients can do to the arrays

Lengths and addresses come from the clients' sockets, and the handlers
use them without looking. A callback leaves an array exactly when it
handles a request that does not fit (`requests_in_bounds`).
-/

namespace Sricd

open Sricd.Lib

/-! ## Requests that fit -/

/-- What `handle_tx` can take: as much of the payload as there is fits the
array, and a frame that is there as a whole goes to an address of the
table. -/
def TxFits : List Byte → Prop
  | a0 :: a1 :: l0 :: l1 :: rest =>
      min (Ipc.le16 l0 l1) rest.length ≤ payloadMax
        ∧ (Ipc.le16 l0 l1 ≤ rest.length → Ipc.le16 a0 a1 < deviceHighAddress)
  | _ => True

/-- What `handle_note_flags` can take: a device of the table, when it comes
to look, which it does also with too few bytes of flags. -/
def FlagsFit (closed : Bool) : List Byte → Prop
  | d1 :: d0 :: rest =>
      rest ≠ [] ∨ closed = true → (d1 ++ d0 : BitVec 16).toNat < deviceHighAddress
  | _ => True

/-- The request that is next on the socket. -/
def Socket.Fits (k : Socket) : Prop :=
  match k.inbox with
  | [] => True
  | cmd :: rest => (cmd = 0 → TxFits rest) ∧ (cmd = 1 → FlagsFit k.closed rest)

instance : DecidablePred TxFits := fun l => by
  unfold TxFits
  split <;> infer_instance

instance (closed : Bool) : DecidablePred (FlagsFit closed) := fun l => by
  unfold FlagsFit
  split <;> infer_instance

instance : DecidablePred Socket.Fits := fun k => by
  unfold Socket.Fits
  split <;> infer_instance

namespace Ipc

/-! ## Requests -/

theorem transmit_faults (P : Platform) (s : Ipc) (c : Nat) (frame : FrameT) :
    s.transmit P c frame = .error .outOfBounds ↔ ¬frame.address < deviceHighAddress := by
  constructor
  · intro h
    exact (transmit_error h).2
  · intro h
    rw [transmit, Devices.deviceExists, if_neg h]
    rfl

theorem setFlags_faults (P : Platform) (s : Ipc) (c device : Nat) (flags : BitVec 64) :
    s.setFlags P c device flags = .error .outOfBounds ↔ ¬device < deviceHighAddress := by
  constructor
  · intro h
    obtain hx | ⟨-, hlt⟩ := setFlags_error h
    · cases hx
    · exact hlt
  · intro h
    rw [setFlags, Devices.deviceExists, if_neg h]
    rfl

end Ipc

/-- What is heard takes the callback outside an array. -/
def Heard.Faulty : Heard → Prop
  | .overflow => True
  | .request (.tx address payload _) =>
      ¬(payload.length ≤ payloadMax ∧ address.toNat < deviceHighAddress)
  | .request (.noteFlags device _) => ¬device.toNat < deviceHighAddress
  | .cutFlags device => ¬device.toNat < deviceHighAddress
  | _ => False

namespace Ipc

theorem serve_faults (P : Platform) (s : Ipc) (c : Nat) (stale : BitVec 64) (h : Heard) :
    h.serve P s c stale = .error .outOfBounds ↔ h.Faulty := by
  cases h with
  | nothing => exact iff_of_false (fun h => by cases h) id
  | overflow => exact iff_of_true rfl trivial
  | malformed => exact iff_of_false (fun h => by cases h) id
  | cutFlags device =>
      refine bind_error.trans ?_
      rw [setFlags_faults]
      exact or_iff_left fun ⟨_, _, h⟩ => by cases h
  | request q =>
      cases q with
      | tx address payload hlt =>
          rw [Heard.serve, Request.serve, Heard.Faulty]
          by_cases h64 : payload.length ≤ payloadMax
          · rw [dif_pos h64, transmit_faults, and_iff_right h64]
          · rw [dif_neg h64]
            exact iff_of_true rfl fun h => h64 h.1
      | poll k timeout => exact iff_of_false (fun h => by cases poll_error h) id
      | noteFlags device flags => exact setFlags_faults P s c device.toNat flags
      | noteClear => exact iff_of_false (fun h => by cases handleNoteClear_error h) id
      | listDevices => exact iff_of_false (fun h => by cases h) id

theorem short_faulty {h : Heard} (hf : ¬h.Faulty) (closed : Bool) (inbox : List Byte) :
    ¬(Heard.short closed inbox h).Faulty := by
  rcases short_cases closed inbox h with hs | hs <;> rw [hs]
  · exact id
  · exact hf

/-- The part of the payload that is there is what is written. -/
theorem payload_faulty (closed : Bool) (address : BitVec 16) (n : Nat) (inbox : List Byte) :
    (Heard.payload closed address n inbox).Faulty
      ↔ ¬(min n inbox.length ≤ payloadMax
        ∧ (n ≤ inbox.length → address.toNat < deviceHighAddress)) := by
  have hlen : (inbox.take n).length = min n inbox.length := List.length_take
  rw [Heard.payload]
  split
  · by_cases h64 : (inbox.take n).length ≤ payloadMax
    · rw [dif_pos h64]
      by_cases hfull : (inbox.take n).length ≠ n
      · rw [if_pos hfull]
        refine iff_of_false id (not_not.mpr ⟨hlen ▸ h64, fun h => ?_⟩)
        exact absurd (hlen.trans (Nat.min_eq_left h)) hfull
      · rw [if_neg hfull]
        have hn : n ≤ inbox.length := by omega
        refine not_congr (and_congr (by rw [hlen]) ?_)
        exact ⟨fun h _ => h, fun h => h hn⟩
    · rw [dif_neg h64]
      exact iff_of_true trivial fun h => h64 (hlen ▸ h.1)
  · rename_i hblock
    simp only [not_or, not_not] at hblock
    obtain ⟨hn, hnil, -⟩ := hblock
    refine iff_of_false id (not_not.mpr ?_)
    rw [hnil]
    exact ⟨by simp, fun h => absurd (Nat.le_zero.mp h) hn⟩

theorem tx_faulty (closed : Bool) (inbox : List Byte) :
    (Heard.tx closed inbox).1.Faulty ↔ ¬TxFits inbox := by
  rcases inbox with _ | ⟨a0, _ | ⟨a1, _ | ⟨l0, _ | ⟨l1, rest⟩⟩⟩⟩
  iterate 4
    simp only [Heard.tx]
    exact iff_of_false (short_faulty (h := .malformed) id closed _) (by simp [TxFits])
  refine (payload_faulty closed _ _ rest).trans ?_
  rw [toNat_append_le16]
  rfl

/-- The device is looked up also where the flags are cut short. -/
theorem noteFlags_faulty (closed : Bool) (inbox : List Byte) :
    (Heard.noteFlags closed inbox).1.Faulty ↔ ¬FlagsFit closed inbox := by
  rcases inbox with _ | ⟨d1, _ | ⟨d0, rest⟩⟩
  iterate 2
    simp only [Heard.noteFlags]
    exact iff_of_false (short_faulty (h := .malformed) id closed _) (by simp [FlagsFit])
  rw [Heard.noteFlags]
  show _ ↔ ¬(rest ≠ [] ∨ closed = true → (d1 ++ d0 : BitVec 16).toNat < deviceHighAddress)
  rcases rest with
    _ | ⟨b7, _ | ⟨b6, _ | ⟨b5, _ | ⟨b4, _ | ⟨b3, _ | ⟨b2, _ | ⟨b1, _ | ⟨b0, rest⟩⟩⟩⟩⟩⟩⟩⟩
  · -- nothing of the flags is there
    cases closed with
    | false => exact iff_of_false id (by simp)
    | true => exact not_congr ⟨fun h _ => h, fun h => h (.inr rfl)⟩
  all_goals exact not_congr ⟨fun h _ => h, fun h => h (.inl (List.cons_ne_nil _ _))⟩

theorem hear_faulty (closed : Bool) (cmd : Byte) (inbox : List Byte) :
    (hear closed cmd inbox).1.Faulty
      ↔ ¬((cmd = 0 → TxFits inbox) ∧ (cmd = 1 → FlagsFit closed inbox)) := by
  by_cases h0 : cmd = 0
  · subst h0
    apply (tx_faulty closed inbox).trans
    simp
  by_cases h1 : cmd = 1
  · subst h1
    apply (noteFlags_faulty closed inbox).trans
    simp
  · refine iff_of_false ?_ (not_not.mpr ⟨fun h => absurd h h0, fun h => absurd h h1⟩)
    have hfor := hear_for closed cmd inbox
    intro hf
    generalize (hear closed cmd inbox).1 = heard at hf hfor
    cases heard with
    | nothing | malformed => exact hf
    | overflow => exact h0 (BitVec.eq_of_toNat_eq hfor)
    | cutFlags device => exact h1 (BitVec.eq_of_toNat_eq hfor)
    | request q =>
        cases q with
        | tx => exact h0 (BitVec.eq_of_toNat_eq hfor).symm
        | noteFlags => exact h1 (BitVec.eq_of_toNat_eq hfor).symm
        | poll | noteClear | listDevices => exact hf

/-- **A request is handled out of bounds** exactly when it does not fit. -/
theorem clientIncoming_faults (P : Platform) (s : Ipc) (id c : Nat) (stale : BitVec 64) :
    s.clientIncoming P id c stale = .error .outOfBounds ↔ ¬(s.sockets c).Fits := by
  rw [Socket.Fits]
  cases hk : (s.sockets c).inbox with
  | nil =>
      rw [clientIncoming_end P hk]
      refine iff_of_false ?_ (not_not.mpr trivial)
      split <;> simp
  | cons cmd rest => rw [clientIncoming_hear P hk, serve_faults, hear_faulty]

/-! ## The other callbacks -/

theorem ping_faults (k : Poll) (s : Ipc) (c : Nat) : s.ping k c ≠ .error .outOfBounds := by
  intro h
  obtain h | ⟨cl, -, h⟩ := bind_error.mp h
  · cases client_error h
  · repeat' split at h
    all_goals cases h

theorem clientPush_faults (k : Poll) (s : Ipc) (c : Nat) (f : Frame) :
    s.clientPush k c f ≠ .error .outOfBounds := by
  intro h
  obtain h | ⟨cl, -, h⟩ := bind_error.mp h
  · cases client_error h
  · split at h
    · exact ping_faults _ _ _ h
    · cases h

theorem pushNotes_faults (s : Ipc) (note : Frame) (cs : List Nat) :
    s.pushNotes note cs ≠ .error .outOfBounds := by
  induction cs generalizing s with
  | nil => simp [pushNotes]
  | cons c cs ih =>
      intro h
      obtain h | ⟨⟨t, out⟩, -, h⟩ := bind_error.mp h
      · exact clientPush_faults _ _ _ _ h
      · obtain h | ⟨_, -, h⟩ := bind_error.mp h
        · exact ih t h
        · cases h

theorem clientDeath_faults (P : Platform) (s : Ipc) (id c : Nat) :
    s.clientDeath P id c ≠ .error .outOfBounds := by
  intro h
  obtain h | ⟨_, -, h⟩ := bind_error.mp h
  · obtain h | ⟨_, -, h⟩ := bind_error.mp h
    · cases clearClientNotes_error h
    · cases h
  · cases h

/-- The request that a callback is about to read fits. -/
def RequestFits (s : Ipc) : IpcEvent → Prop
  | .incoming id c _ => (id, .incoming c) ∈ s.loop.live → (s.sockets c).Fits
  | _ => True

instance (s : Ipc) : DecidablePred s.RequestFits
  | .incoming _ c _ => inferInstanceAs (Decidable (_ → (s.sockets c).Fits))
  | .new _ | .sent .. | .closed _ | .death .. | .timeout .. => inferInstanceAs (Decidable True)

theorem step_faults (P : Platform) (s : Ipc) (ev : IpcEvent) :
    s.step P ev = .error .outOfBounds ↔ ¬s.RequestFits ev := by
  have hlive : ∀ p, ev.source = some p → s.step P ev
      = if p ∈ s.loop.live then s.handle P ev else .error .disabled := by
    intro p hp
    rw [step, hp]
  cases ev with
  | incoming id c stale =>
      rw [hlive _ rfl]
      by_cases hl : (id, IpcSource.incoming c) ∈ s.loop.live
      · rw [if_pos hl]
        exact (clientIncoming_faults P s id c stale).trans
          (not_congr ⟨fun h _ => h, fun h => h hl⟩)
      · rw [if_neg hl]
        exact iff_of_false (by simp) (not_not.mpr fun h => absurd h hl)
  | sent c bytes =>
      refine iff_of_false ?_ (not_not.mpr trivial)
      show (if _ then _ else _ : Result) ≠ _
      split <;> simp
  | closed c =>
      refine iff_of_false ?_ (not_not.mpr trivial)
      show (if _ then _ else _ : Result) ≠ _
      split <;> simp
  | new id =>
      refine iff_of_false ?_ (not_not.mpr trivial)
      rw [hlive _ rfl]
      split <;> simp [handle]
  | death id c =>
      refine iff_of_false ?_ (not_not.mpr trivial)
      rw [hlive _ rfl]
      split
      · show (if _ then _ else _ : Result) ≠ _
        split
        · exact clientDeath_faults _ _ _ _
        · simp
      · simp
  | timeout k id c =>
      refine iff_of_false ?_ (not_not.mpr trivial)
      rw [hlive _ rfl]
      split
      · cases k with
        | note => exact fun h => by cases timedOut_error h
        | rx =>
            intro h
            obtain h | ⟨_, -, h⟩ := bind_error.mp h
            · cases timedOut_error h
            · cases h
      · simp

/-- A note that comes from the bus is in the table. -/
theorem calls_faults (P : Platform) (s : Ipc) {os : List IfOut}
    (h : ∀ f, .note f ∈ os → f.sourceAddress.toNat < deviceHighAddress) :
    s.calls P os ≠ .error .outOfBounds := by
  induction os generalizing s with
  | nil => simp [calls]
  | cons o os ih =>
      intro hs
      obtain hs | ⟨⟨t, out⟩, -, hs⟩ := bind_error.mp hs
      · cases o with
        | pushRx tag f =>
            cases tag with
            | client c => exact clientPush_faults _ _ _ _ hs
            | null => cases hs
            | badEnum => cases hs
        | note f =>
            rw [call, dispatchNote, if_pos (h f List.mem_cons_self)] at hs
            exact pushNotes_faults _ _ _ hs
        | wrote | free | deviceAdd | listen => cases hs
      · obtain hs | ⟨_, -, hs⟩ := bind_error.mp hs
        · exact ih t (fun f hf => h f (List.mem_cons_of_mem _ hf)) hs
        · cases hs

end Ipc

/-! ## The serial interface -/

namespace SricIf

theorem frameOf_source (p : PackedFrame) (note : Byte) :
    (frameOf p note).sourceAddress.toNat < deviceHighAddress := by
  show (p.sourceAddress &&& 0x7F).toNat < 128
  rw [BitVec.toNat_and]
  exact Nat.lt_of_le_of_lt Nat.and_le_right (by decide)

theorem enumStep_faults (s : SricIf) (r : Option (Enum × List EnumAction)) :
    s.enumStep r ≠ .error .outOfBounds := by
  cases r <;> simp [enumStep]

theorem send_faults (s : SricIf) (w : Option Nat) : s.send w ≠ .error .outOfBounds := by
  cases w with
  | none => simp [send]
  | some w =>
      rw [send]
      split <;> simp

theorem step_faults (s : SricIf) (ev : IfEvent) : s.step ev ≠ .error .outOfBounds := by
  have hhandle : s.handle ev ≠ .error .outOfBounds := by
    cases ev with
    | enumStart => exact enumStep_faults _ _
    | push f pri => simp [handle]
    | cancel tag => simp [handle]
    | ifTx id w =>
        rw [handle]
        intro h
        split at h
        · rename_i x hx
          cases h
          rw [ifTx] at hx
          split at hx
          · cases hx
          · split at hx
            · exact send_faults _ _ hx
            · split at hx
              · cases hx
              · cases hx
              · exact send_faults _ _ hx
        · cases h
    | txTimeout id => simp [handle]
    | killToken id =>
        rw [handle]
        intro h
        cases hr : s.enumStep s.enum.killTokenTimeout with
        | error x =>
            rw [hr] at h
            cases h
            exact enumStep_faults _ _ hr
        | ok p =>
            rw [hr] at h
            cases h
    | sendReset id =>
        rw [handle]
        split <;> simp
    | frame bytes =>
        rw [handle, procRxFrame]
        intro h
        repeat' split at h
        all_goals first | cases h | skip
        rw [retire] at h
        repeat' split at h
        all_goals cases h
  rw [step]
  split
  · split
    · exact hhandle
    · simp
  · exact hhandle

theorem calls_txInv {s : SricIf} (h : TxInv s) (os : List IpcOut) : TxInv (s.calls os).1 := by
  induction os generalizing s with
  | nil => exact h
  | cons o os ih =>
      apply ih (s := (s.call o).1)
      cases o with
      | reply c r => exact h
      | push f => exact h.txqPush f 1
      | cancel c => exact h.txqCancel _

theorem mem_held_calls {s : SricIf} {os : List IpcOut} {e : TxEntry}
    (h : e ∈ (s.calls os).1.held) : e ∈ s.held ∨ .push e.frame ∈ os := by
  induction os generalizing s with
  | nil => exact .inl h
  | cons o os ih =>
      rcases ih (s := (s.call o).1) h with h | h
      · cases o with
        | reply c r => exact .inl h
        | push f =>
            rcases mem_held_effect (s.txqPush_effect f 1) h with h | h
            · exact .inl h
            · rw [List.mem_singleton.mp h]
              exact .inr List.mem_cons_self
        | cancel c =>
            rcases mem_held_effect (s.txqCancel_effect (.client c)) h with h | h
            · exact .inl h
            · cases h
      · exact .inr (List.mem_cons_of_mem _ h)

end SricIf

/-! ## What is queued for a client -/

namespace Ipc

/-- Frames are queued for addresses of the table only. -/
def Addressed (r : Result) : Prop :=
  ∀ s' out, r = .ok (s', out) → ∀ f, .push f ∈ out → f.address < deviceHighAddress

/-- Frames are queued for addresses of the table, and of the client `c`,
only. -/
def Queues (c : Nat) (r : Result) : Prop :=
  ∀ s' out, r = .ok (s', out) → ∀ f, .push f ∈ out →
    f.address < deviceHighAddress ∧ f.tag = .client c

theorem queues_ok {c : Nat} {s : Ipc} {out : List IpcOut}
    (h : ∀ f, .push f ∈ out → f.address < deviceHighAddress ∧ f.tag = .client c) :
    Queues c (.ok (s, out)) := by
  intro _ _ hx
  obtain ⟨⟩ := hx
  exact h

theorem queues_error (c : Nat) (x : Halt) : Queues c (.error x) := by
  intro _ _ hx
  obtain ⟨⟩ := hx

theorem queues_bind {α : Type} {c : Nat} {x : Except Halt α} {f : α → Result}
    (h : ∀ a, x = .ok a → Queues c (f a)) : Queues c (x >>= f) := by
  intro s' out hr
  obtain ⟨a, ha, hf⟩ := bind_ok.mp hr
  exact h a ha s' out hf

theorem result_queues (s : Ipc) (c : Nat) (b : Byte) : Queues c (s.result c b) :=
  queues_ok (by simp)

theorem transmit_queues (P : Platform) (s : Ipc) (c : Nat) {frame : FrameT}
    (ht : frame.tag = .client c) : Queues c (s.transmit P c frame) := by
  apply queues_bind
  intro b hb
  rw [Devices.deviceExists] at hb
  split at hb
  · rename_i hlt
    split
    · apply queues_ok
      intro f hf
      obtain rfl : f = frame := by simpa using hf
      exact ⟨hlt, ht⟩
    · exact result_queues _ _ _
  · cases hb

theorem poll_queues (k : Poll) (s : Ipc) (c : Nat) (timeout : BitVec 32) :
    Queues c (s.poll k c timeout) := by
  apply queues_bind
  intro cl _
  split
  · exact queues_ok (by simp)
  · rw [await]
    split
    · exact result_queues _ _ _
    · split <;> exact queues_ok (by simp)

theorem setFlags_queues (P : Platform) (s : Ipc) (c device : Nat) (flags : BitVec 64) :
    Queues c (s.setFlags P c device flags) := by
  apply queues_bind
  intro b _
  split
  · exact queues_bind fun cl _ => result_queues _ _ _
  · exact result_queues _ _ _

theorem serve_queues (P : Platform) (s : Ipc) (c : Nat) (stale : BitVec 64) (h : Heard) :
    Queues c (h.serve P s c stale) := by
  cases h with
  | nothing | overflow => exact queues_error _ _
  | malformed => exact result_queues _ _ _
  | cutFlags device =>
      apply queues_bind
      intro hx ht
      obtain ⟨t, out⟩ := hx
      apply queues_ok
      intro f hf
      exact setFlags_queues _ _ _ _ _ _ _ ht f (by simpa using hf)
  | request q =>
      cases q with
      | tx address payload hlt =>
          rw [Heard.serve, Request.serve]
          split
          · exact transmit_queues _ _ _ rfl
          · exact queues_error _ _
      | poll k timeout => exact poll_queues _ _ _ _
      | noteFlags device flags => exact setFlags_queues _ _ _ _ _
      | noteClear => exact queues_bind fun _ _ => result_queues _ _ _
      | listDevices => exact queues_ok (by simp)

theorem clientIncoming_queues (P : Platform) (s : Ipc) (id c : Nat) (stale : BitVec 64) :
    Queues c (s.clientIncoming P id c stale) := by
  cases hk : (s.sockets c).inbox with
  | nil =>
      rw [clientIncoming_end P hk]
      split
      · exact queues_ok (by simp)
      · exact queues_error _ _
  | cons cmd rest =>
      rw [clientIncoming_hear P hk]
      exact serve_queues _ _ _ _ _

theorem deathOut {P : Platform} {s s' : Ipc} {id c : Nat} {out : List IpcOut}
    (h : s.clientDeath P id c = .ok (s', out)) : out = [.cancel c] := by
  obtain ⟨⟨t, o⟩, ht, h⟩ := bind_ok.mp h
  obtain ⟨u, -, ht⟩ := bind_ok.mp ht
  cases ht
  cases h
  rfl

/-- **Only a request of the client queues a frame of it.** -/
theorem step_queues {P : Platform} {s s' : Ipc} {ev : IpcEvent} {out : List IpcOut}
    (h : s.step P ev = .ok (s', out)) {f : FrameT} (hf : .push f ∈ out) :
    f.address < deviceHighAddress
      ∧ ∃ id c stale, ev = .incoming id c stale ∧ f.tag = .client c := by
  have hh := (step_handle h).2
  cases ev with
  | new id =>
      cases hh
      cases hf
  | sent c bytes =>
      simp only [handle] at hh
      split at hh
      · cases hh
        cases hf
      · cases hh
  | closed c =>
      simp only [handle] at hh
      split at hh
      · cases hh
        cases hf
      · cases hh
  | incoming id c stale =>
      obtain ⟨hlt, htag⟩ := clientIncoming_queues P s id c stale s' out hh f hf
      exact ⟨hlt, id, c, stale, rfl, htag⟩
  | death id c =>
      simp only [handle] at hh
      split at hh
      · rw [deathOut hh] at hf
        cases List.mem_singleton.mp hf
      · cases hh
  | timeout k id c =>
      cases k with
      | rx =>
          obtain ⟨⟨t, o⟩, ht, hh⟩ := bind_ok.mp hh
          obtain ⟨cl, -, ht⟩ := bind_ok.mp ht
          cases ht
          cases hh
          simp at hf
      | note =>
          obtain ⟨cl, -, hh⟩ := bind_ok.mp hh
          cases hh
          simp at hf

theorem step_addressed (P : Platform) (s : Ipc) (ev : IpcEvent) : Addressed (s.step P ev) :=
  fun _ _ h _ hf => (step_queues h hf).1

end Ipc

/-! ## Runs -/

namespace Daemon

/-- What the frames on their way to the bus can be relied on for. -/
structure Inv (s : Daemon) : Prop where
  txInv : s.sricIf.TxInv
  addressed : ∀ e ∈ s.sricIf.held, ∀ c, e.frame.tag = .client c →
    e.frame.address < deviceHighAddress

theorem inv_init : Inv init where
  txInv := SricIf.txInv_init
  addressed e h := by simp [init, SricIf.held, SricIf.init, TxQueue.entries, TxQueue.init] at h

theorem inv_step (P : Platform) (s : Daemon) (ev : DaemonEvent) (s' : Daemon)
    (out : List DaemonOut) (h : Inv s) (hs : step P s ev = .ok (s', out)) : Inv s' := by
  cases ev with
  | sricIf ev =>
      obtain ⟨os, ipc, outs, hcall, ht, -⟩ := sricIf_ok hs
      refine ⟨h.txInv.step ht, ?_⟩
      intro e he c htag
      rcases SricIf.mem_held_effect (SricIf.step_effect h.txInv ht) he with he | he
      · exact h.addressed e he c htag
      · rcases SricIf.pushes_tag he with ⟨pri, rfl⟩ | hn | hb
        · cases hcall
        · cases htag.symm.trans hn
        · cases htag.symm.trans hb
  | ipc ev =>
      obtain ⟨os, hi, ht, -⟩ := ipc_ok hs
      refine ⟨by rw [ht]; exact SricIf.calls_txInv h.txInv os, ?_⟩
      intro e he c htag
      rw [ht] at he
      rcases SricIf.mem_held_calls he with he | he
      · exact h.addressed e he c htag
      · exact Ipc.step_addressed P s.ipc ev _ _ hi _ he

/-- The request that a callback is about to read fits. -/
def RequestFits (s : Daemon) : DaemonEvent → Prop
  | .ipc ev => s.ipc.RequestFits ev
  | .sricIf _ => True

instance (s : Daemon) : DecidablePred s.RequestFits
  | .ipc ev => inferInstanceAs (Decidable (s.ipc.RequestFits ev))
  | .sricIf _ => inferInstanceAs (Decidable True)

theorem step_faults {P : Platform} {s : Daemon} (h : Inv s) (ev : DaemonEvent) :
    step P s ev = .error .outOfBounds ↔ ¬s.RequestFits ev := by
  cases ev with
  | sricIf ev =>
      refine iff_of_false ?_ (not_not.mpr trivial)
      rw [step]
      split
      · simp
      · intro hs
        obtain hs | ⟨⟨t, os⟩, ht, hs⟩ := bind_error.mp hs
        · exact SricIf.step_faults _ _ hs
        · obtain hs | ⟨_, -, hs⟩ := bind_error.mp hs
          · refine Ipc.calls_faults P s.ipc (fun f hf => ?_) hs
            obtain ⟨bytes, note, -, rfl⟩ := SricIf.step_emits h.txInv ht _ hf
            exact SricIf.frameOf_source _ _
          · cases hs
  | ipc ev =>
      rw [step, bind_error, Ipc.step_faults]
      constructor
      · intro hx
        rcases hx with h | ⟨_, -, h⟩
        · exact h
        · cases h
      · exact .inl

/-- In no state on the way has a client a frame queued for an address
outside the table, or does `next_tx` meet a frame that does not fit. -/
def QueuesInBounds (P : Platform) (evs : List DaemonEvent) : Prop :=
  ∀ pre post s os, evs = pre ++ post → run (step P) init pre = .ok (s, os) →
    (∀ e ∈ s.sricIf.held, ∀ c, e.frame.tag = .client c →
      e.frame.address < deviceHighAddress ∧ e.frame.payload.length ≤ payloadMax)
    ∧ (s.sricIf.txFrame = none → s.sricIf.nextTx ≠ none)

theorem queues_in_bounds (P : Platform) (evs : List DaemonEvent) : QueuesInBounds P evs := by
  rintro pre post s os - hr
  have h : Inv s := run_invariant (inv_step P) inv_init hr
  refine ⟨fun e he c htag => ⟨h.addressed e he c htag, e.frame.payload_le⟩, ?_⟩
  intro hf hn
  rcases SricIf.nextTx_cases h.txInv.txbuf_length hf with ⟨hsome, -⟩ | ⟨t, e, hsome, -⟩
  · cases hn.symm.trans hsome
  · cases hn.symm.trans hsome

/-- **Requests in bounds**: a run keeps to the arrays, and so does all that
it puts on its way to the bus, exactly when every request that it reads
fits. -/
theorem requests_in_bounds (P : Platform) (evs : List DaemonEvent) :
    run (step P) init evs ≠ .error .outOfBounds ∧ QueuesInBounds P evs
      ↔ Along (step P) RequestFits init evs := by
  rw [and_iff_left (queues_in_bounds P evs)]
  exact run_error_iff (inv_step P) (fun s ev h => step_faults h ev) inv_init

/-- The client of `connected` sends a request, and the daemon reads it. -/
def requested (bytes : List Byte) : List DaemonEvent := [.ipc (.sent 0 bytes), .ipc (.incoming 2 0 0)]

/-- A frame for address 200, and one with 65 bytes of payload. -/
theorem requests_out_of_bounds :
    run (step .x86) init (connected ++ requested [0, 200, 0, 0, 0]) = .error .outOfBounds
      ∧ run (step .x86) init (connected ++ requested ([0, 2, 0, 65, 0] ++ List.replicate 65 0))
        = .error .outOfBounds := by
  have hof : ∀ {α : Type} {r : Except Halt α},
      (match r with | .error x => x == .outOfBounds | .ok _ => false) = true →
        r = .error .outOfBounds := by
    intro α r h
    cases r with
    | error x => rw [beq_iff_eq.mp h]
    | ok a => cases h
  constructor
  · apply hof
    decide +kernel
  · apply hof
    decide +kernel

end Daemon

end Sricd
