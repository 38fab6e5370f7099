import Sricd.Libsric

/-!
# The cache of note flags

`libsric` keeps the flags that it has last sent for each device, and sends
only what differs from them. Here its calls run against the daemon: the
descriptor is a socket that the daemon serves. The cache mirrors what the
daemon holds as long as the flags that are sent name devices that exist
(`note_cache_mirrored_iff`): it is written before the daemon answers.
-/

namespace Sricd

open Sricd.Lib

/-! ## The connection -/

/-- The daemon, and what it has written to the client that the client has
not read. -/
structure Served where
  ipc : Ipc
  unread : List Byte

/-- What is written to one of the clients. -/
def repliesTo (c : Nat) : List IpcOut → List Byte
  | [] => []
  | .reply c' r :: os => if c' = c then r.bytes ++ repliesTo c os else repliesTo c os
  | _ :: os => repliesTo c os

theorem repliesTo_status (c : Nat) (r : Byte) : repliesTo c [.reply c (.status r)] = [r] := by
  simp [repliesTo, Reply.bytes]

/-- The socket of client `c`, whose watch has the given id: the daemon
reads what is written to it as soon as it is there. -/
def Served.fd (P : Platform) (id c : Nat) (stale : BitVec 64) : Fd Served where
  write x data :=
    match run (Ipc.step P) x.ipc [.sent c data, .incoming id c stale] with
    | .ok (s, os) => (⟨s, x.unread ++ repliesTo c os⟩, data.length)
    | .error _ => (x, 0)
  read x n := ({ x with unread := x.unread.drop n }, x.unread.take n)

/-- The client is connected, and nothing is under way. -/
structure Connected (s : Ipc) (id c : Nat) : Prop where
  watched : (id, .incoming c) ∈ s.loop.live
  accepted : c < s.accepted
  socket : s.sockets c = ⟨[], false⟩
  client : ∃ cl, s.clients c = some cl

/-- A request of a connected client is served. -/
theorem Connected.run_request {P : Platform} {s : Ipc} {id c : Nat} (h : Connected s id c)
    (stale : BitVec 64) (q : Request) {t : Ipc} {os : List IpcOut}
    (hq : q.serve P s c = .ok (t, os)) :
    run (Ipc.step P) s [.sent c q.bytes, .incoming id c stale] = .ok (t, os) := by
  have hsent : Ipc.step P s (.sent c q.bytes)
      = .ok (s.setSocket c ⟨q.bytes, false⟩, []) := by
    show (if c < s.accepted ∧ (s.sockets c).closed = false then _ else _) = _
    rw [h.socket, if_pos ⟨h.accepted, rfl⟩]
    rfl
  have hself : s.setSocket c ⟨[], false⟩ = s := by
    have := Ipc.setSocket_self (s := s) (c := c) (by rw [h.socket])
    rwa [h.socket] at this
  have hserve : (s.setSocket c ⟨q.bytes, false⟩).clientIncoming P id c stale = .ok (t, os) := by
    rw [Ipc.clientIncoming_request P (q := q) (by rw [Ipc.setSocket_sockets]),
      Ipc.setSocket_setSocket, Ipc.setSocket_sockets, hself, hq]
  have hin : Ipc.step P (s.setSocket c ⟨q.bytes, false⟩) (.incoming id c stale) = .ok (t, os) :=
    (if_pos h.watched).trans hserve
  exact run_cons_ok.mpr ⟨_, [], os, hsent, run_single.mpr hin, rfl⟩

/-- A command that is a request, and is answered with a status. -/
theorem Connected.sendCommand {P : Platform} {id c : Nat} (ctx : Context Served)
    (h : Connected ctx.fd.ipc id c) (hu : ctx.fd.unread = []) (stale : BitVec 64) (q : Request)
    {t : Ipc} {result : Byte} (hq : q.serve P ctx.fd.ipc c = .ok (t, [.reply c (.status result)])) :
    ((Served.fd P id c stale).sendCommand ctx q.bytes).1.fd = ⟨t, []⟩
      ∧ ((Served.fd P id c stale).sendCommand ctx q.bytes).1.noteflags = ctx.noteflags
      ∧ ((Served.fd P id c stale).sendCommand ctx q.bytes).2 = if result = 0 then 0 else 1 := by
  have hwrite : (Served.fd P id c stale).write ctx.fd q.bytes
      = (⟨t, [result]⟩, q.bytes.length) := by
    dsimp only [Served.fd]
    rw [h.run_request stale q hq, hu]
    simp [repliesTo_status]
  have hread : (Served.fd P id c stale).read ⟨t, [result]⟩ 1 = (⟨t, []⟩, [result]) := rfl
  obtain ⟨hflags, hfd⟩ := (Served.fd P id c stale).sendCommand_rest ctx q.bytes
  refine ⟨?_, hflags, (Served.fd P id c stale).sendCommand_status hwrite hread⟩
  rw [hfd (by rw [hwrite]), hwrite, hread]

/-! ## What the daemon holds -/

namespace Devices

/-- The flags that are recorded for a client at an address, 0 if there are
none. -/
def held (d : Devices) (c address : Nat) : BitVec 64 :=
  match (d.targets address).find? fun t => t.c == c with
  | some t => t.flags
  | none => 0

/-- The records of a client are the flags `f`, one for each address where
they are not 0. -/
def Recorded (d : Devices) (c : Nat) (f : Nat → BitVec 64) : Prop :=
  ∀ a, 2 ≤ a → a < deviceHighAddress →
    ((d.targets a).filter fun t => t.c == c) = if f a = 0 then [] else [⟨c, f a⟩]

theorem Recorded.held {d : Devices} {c : Nat} {f : Nat → BitVec 64} (h : d.Recorded c f) {a : Nat}
    (h2 : 2 ≤ a) (h128 : a < deviceHighAddress) : d.held c a = f a := by
  rw [Devices.held, ← List.head?_filter, h a h2 h128]
  by_cases h0 : f a = 0
  · rw [if_pos h0, h0]
    rfl
  · rw [if_neg h0]
    rfl

theorem filter_updateTarget {c : Nat} {notes : BitVec 64} {ts : List NoteTarget} {f : BitVec 64}
    (h : (ts.filter fun t => t.c == c) = if f = 0 then [] else [⟨c, f⟩]) :
    ((updateTarget c notes ts).filter fun t => t.c == c) = [⟨c, notes⟩] := by
  induction ts with
  | nil => simp [updateTarget]
  | cons t ts ih =>
      by_cases ht : t.c = c
      · -- the record is replaced, and there is no other
        have hrest : (ts.filter fun t => t.c == c) = [] := by
          rw [List.filter_cons_of_pos (by simpa using ht)] at h
          split at h
          · cases h
          · exact (List.cons.inj h).2
        rw [updateTarget, if_pos ht, List.filter_cons_of_pos (by simp), hrest]
      · rw [List.filter_cons_of_neg (by simpa using ht)] at h
        rw [updateTarget, if_neg ht, List.filter_cons_of_neg (by simpa using ht), ih h]

theorem filter_dropTarget {c : Nat} {ts : List NoteTarget} {f : BitVec 64}
    (h : (ts.filter fun t => t.c == c) = if f = 0 then [] else [⟨c, f⟩]) :
    ((dropTarget c ts).filter fun t => t.c == c) = [] := by
  induction ts with
  | nil => rfl
  | cons t ts ih =>
      by_cases ht : t.c = c
      · rw [List.filter_cons_of_pos (by simpa using ht)] at h
        rw [dropTarget, List.eraseP_cons_of_pos (by simpa using ht)]
        split at h
        · cases h
        · exact (List.cons.inj h).2
      · rw [List.filter_cons_of_neg (by simpa using ht)] at h
        rw [dropTarget, List.eraseP_cons_of_neg (by simpa using ht),
          List.filter_cons_of_neg (by simpa using ht)]
        exact ih h

theorem Recorded.set {d : Devices} {c : Nat} {f : Nat → BitVec 64} (h : d.Recorded c f) (a : Nat)
    (notes : BitVec 64) : (d.setClientNotes a c notes).Recorded c (Function.update f a notes) := by
  intro b h2 h128
  rw [setClientNotes_targets]
  by_cases hb : b = a
  · subst hb
    rw [Function.update_self, Function.update_self]
    by_cases h0 : notes = 0
    · rw [if_neg (not_not.mpr h0), if_pos h0]
      exact filter_dropTarget (h b h2 h128)
    · rw [if_pos h0, if_neg h0]
      exact filter_updateTarget (h b h2 h128)
  · rw [Function.update_of_ne hb, Function.update_of_ne hb]
    exact h b h2 h128

/-- Every address from 2 on is cleared. -/
theorem Recorded.clear {d : Devices} {c : Nat} {f : Nat → BitVec 64} (h : d.Recorded c f) :
    (d.clearClientNotes c).Recorded c fun _ => 0 := by
  have hfold : ∀ (is : List Nat) (d : Devices) (f : Nat → BitVec 64), d.Recorded c f →
      (is.foldl (fun d i => d.setClientNotes i c 0) d).Recorded c
        fun a => if a ∈ is then 0 else f a := by
    intro is
    induction is with
    | nil => exact fun d f h => by simpa using h
    | cons i is ih =>
        intro d f h
        have := ih _ _ (h.set i 0)
        intro a h2 h128
        rw [List.foldl_cons, this a h2 h128]
        by_cases ha : a = i
        · subst ha
          simp
        · simp [ha]
  intro a h2 h128
  have hmem : a ∈ List.range' 2 (deviceHighAddress - 2) := List.mem_range'_1.mpr (by omega)
  have hcleared := hfold (List.range' 2 (deviceHighAddress - 2)) d f h a h2 h128
  simp only [if_pos hmem] at hcleared
  exact hcleared

end Devices

/-! ## Calls -/

/-- The calls on a context that concern notes. -/
inductive NoteCall where
  /-- `sric_note_set_flags` -/
  | setFlags (device : BitVec 32) (flags : BitVec 64)
  /-- `sric_note_register` -/
  | register (device note : BitVec 32)
  /-- `sric_note_unregister` -/
  | unregister (device note : BitVec 32)
  /-- `sric_note_unregister_device` -/
  | unregisterDevice (device : BitVec 32)
  /-- `sric_note_unregister_all` -/
  | unregisterAll
deriving DecidableEq

namespace NoteCall

variable {κ : Type}

/-- The context behind a call, and what the call returns. -/
def run (P : Platform) (F : Fd κ) (ctx : Context κ) : NoteCall → Context κ × Nat
  | .setFlags device flags => F.sricNoteSetFlags ctx device flags
  | .register device note => F.sricNoteRegister P ctx device note
  | .unregister device note => F.sricNoteUnregister P ctx device note
  | .unregisterDevice device => F.sricNoteUnregisterDevice ctx device
  | .unregisterAll => F.sricNoteUnregisterAll ctx

/-- One call after the other. -/
def step (P : Platform) (F : Fd κ) (ctx : Context κ) (call : NoteCall) :
    Except Halt (Context κ × List Nat) :=
  let (ctx, rv) := call.run P F ctx
  .ok (ctx, [rv])

/-- The device that a call sets flags for, and the flags. -/
def sets (P : Platform) (ctx : Context κ) : NoteCall → Option (BitVec 32 × BitVec 64)
  | .setFlags device flags => some (device, flags)
  | .register device note =>
      some (device, (Fd.sricNoteGetFlags ctx device).2 ||| P.shl1 note.toNat)
  | .unregister device note =>
      some (device, (Fd.sricNoteGetFlags ctx device).2 &&& ~~~P.shl1 note.toNat)
  | .unregisterDevice device => some (device, 0)
  | .unregisterAll => none

/-- Behind the call the cache is what the daemon holds for client `c`, and
where the call returned 0 the daemon holds what it set. -/
def Mirrored (P : Platform) (c : Nat) (F : Fd Served) (ctx : Context Served) (call : NoteCall) :
    Prop :=
  (∀ a, 2 ≤ a → a < sricHighAddress →
    (call.run P F ctx).1.noteflags a = (call.run P F ctx).1.fd.ipc.devices.held c a)
  ∧ ∀ device flags, call.sets P ctx = some (device, flags) → (call.run P F ctx).2 = 0 →
    (call.run P F ctx).1.fd.ipc.devices.held c device.toNat = flags

/-- Flags that are not in the cache are set for a device that exists. -/
def NamesDevice (P : Platform) (ctx : Context Served) (call : NoteCall) : Prop :=
  ∀ device flags, call.sets P ctx = some (device, flags) → checkAddress device false = none →
    ctx.noteflags device.toNat ≠ flags → ctx.fd.ipc.devices.known P device.toNat = true

end NoteCall

/-! ## What the daemon does -/

theorem Connected.of_client {s : Ipc} {id c : Nat} (h : Connected s id c) (d : Devices)
    (cl : Client) : Connected ({ s with devices := d }.setClient c cl) id c where
  watched := h.watched
  accepted := h.accepted
  socket := h.socket
  client := ⟨cl, Function.update_self ..⟩

theorem Connected.setFlags_known {P : Platform} {s : Ipc} {id c : Nat} (h : Connected s id c)
    {device : Nat} (h128 : device < deviceHighAddress) (hk : s.devices.known P device = true)
    (flags : BitVec 64) :
    ∃ t, s.setFlags P c device flags = .ok (t, [.reply c (.status 0)]) ∧ Connected t id c
      ∧ t.devices = s.devices.setClientNotes device c flags := by
  obtain ⟨cl, hcl⟩ := h.client
  exact ⟨_, Ipc.setFlags_known h128 hk hcl flags,
    h.of_client (s.devices.setClientNotes device c flags) (cl.setNoteData P device flags), rfl⟩

theorem Connected.noteClear {P : Platform} {s : Ipc} {id c : Nat} (h : Connected s id c) :
    ∃ t, Ipc.handleNoteClear P s c = .ok (t, [.reply c (.status 0)]) ∧ Connected t id c
      ∧ t.devices = s.devices.clearClientNotes c := by
  obtain ⟨cl, hcl⟩ := h.client
  have hclient : s.client c = .ok cl := by
    rw [Ipc.client, hcl]
  refine ⟨_, ?_, h.of_client (s.devices.clearClientNotes c) (cl.clearNoteData P), rfl⟩
  rw [Ipc.handleNoteClear, Ipc.clearClientNotes, hclient]
  rfl

/-! ## One call -/

/-- The client is connected, it has read all replies, and its cache is what
the daemon has recorded. -/
structure Linked (id c : Nat) (ctx : Context Served) : Prop where
  connected : Connected ctx.fd.ipc id c
  unread : ctx.fd.unread = []
  recorded : ctx.fd.ipc.devices.Recorded c ctx.noteflags

namespace Linked

variable {P : Platform} {id c : Nat} {ctx : Context Served}

/-- Setting flags depends on the descriptor and the cache. -/
theorem run_sets {call : NoteCall} {F : Fd Served} {device : BitVec 32} {flags : BitVec 64}
    (h : call.sets P ctx = some (device, flags)) :
    call.run P F ctx = F.sricNoteSetFlags ctx device flags := by
  have hget : (Fd.sricNoteGetFlags ctx device).1.clearError = ctx.clearError := by
    rw [Fd.sricNoteGetFlags]
    split <;> rfl
  have hset : ∀ f, F.sricNoteSetFlags (Fd.sricNoteGetFlags ctx device).1 device f
      = F.sricNoteSetFlags ctx device f := by
    intro f
    rw [Fd.sricNoteSetFlags, hget]
    rfl
  cases call with
  | setFlags => cases h; rfl
  | register => cases h; exact hset _
  | unregister => cases h; exact hset _
  | unregisterDevice => cases h; rfl
  | unregisterAll => cases h

/-- A command with flags, and the daemon's answer. -/
theorem sendFlags (h : Linked id c ctx) (stale : BitVec 64) {device : BitVec 32}
    {flags : BitVec 64} (hcheck : checkAddress device false = none)
    (hne : ctx.noteflags device.toNat ≠ flags) {t : Ipc} {result : Byte}
    (hq : ctx.fd.ipc.setFlags P c device.toNat flags = .ok (t, [.reply c (.status result)])) :
    ((Served.fd P id c stale).sricNoteSetFlags ctx device flags).1.fd = ⟨t, []⟩
      ∧ ((Served.fd P id c stale).sricNoteSetFlags ctx device flags).1.noteflags
        = Function.update ctx.noteflags device.toNat flags
      ∧ ((Served.fd P id c stale).sricNoteSetFlags ctx device flags).2
        = if result = 0 then 0 else 1 := by
  have hserve : (Request.noteFlags (device.truncate 16) flags).serve P ctx.fd.ipc c
      = .ok (t, [.reply c (.status result)]) := by
    rw [Request.serve, toNat_truncate16 (checkAddress_lt hcheck), hq]
  have hcall : (Served.fd P id c stale).sricNoteSetFlags ctx device flags
      = (Served.fd P id c stale).sendCommand { ctx.clearError with
          noteflags := Function.update ctx.noteflags device.toNat flags }
        (Request.noteFlags (device.truncate 16) flags).bytes := by
    rw [Fd.sricNoteSetFlags]
    simp only [hcheck]
    rw [if_pos (show ctx.clearError.noteflags device.toNat ≠ flags from hne), noteCommand_request]
    rfl
  rw [hcall]
  exact Connected.sendCommand { ctx.clearError with
    noteflags := Function.update ctx.noteflags device.toNat flags } h.connected h.unread stale _
    hserve

/-- Setting the flags of a device that exists, or the ones that are
cached. -/
theorem setFlags (h : Linked id c ctx) (stale : BitVec 64) {device : BitVec 32}
    {flags : BitVec 64} (hk : checkAddress device false = none →
      ctx.noteflags device.toNat ≠ flags → ctx.fd.ipc.devices.known P device.toNat = true) :
    Linked id c ((Served.fd P id c stale).sricNoteSetFlags ctx device flags).1
      ∧ (((Served.fd P id c stale).sricNoteSetFlags ctx device flags).2 = 0 →
        checkAddress device false = none
          ∧ ((Served.fd P id c stale).sricNoteSetFlags ctx device flags).1.noteflags device.toNat
            = flags) := by
  cases hcheck : checkAddress device false with
  | some e =>
      have hcall : (Served.fd P id c stale).sricNoteSetFlags ctx device flags
          = ({ ctx.clearError with error := e }, 1) := by
        rw [Fd.sricNoteSetFlags]
        simp only [hcheck]
      rw [hcall]
      exact ⟨⟨h.connected, h.unread, h.recorded⟩, fun hc => by cases hc⟩
  | none =>
      by_cases hne : ctx.noteflags device.toNat ≠ flags
      · obtain ⟨t, hq, ht, hd⟩ :=
          h.connected.setFlags_known (checkAddress_lt hcheck) (hk hcheck hne) flags
        obtain ⟨hfd, hflags, -⟩ := h.sendFlags stale hcheck hne hq
        refine ⟨⟨?_, ?_, ?_⟩, fun _ => ⟨rfl, ?_⟩⟩
        · rw [hfd]
          exact ht
        · rw [hfd]
        · rw [hfd, hflags, hd]
          exact h.recorded.set _ _
        · rw [hflags, Function.update_self]
      · have hcall : (Served.fd P id c stale).sricNoteSetFlags ctx device flags
            = (ctx.clearError, 0) := by
          rw [Fd.sricNoteSetFlags]
          simp only [hcheck]
          exact if_neg hne
        rw [hcall]
        exact ⟨⟨h.connected, h.unread, h.recorded⟩, fun _ => ⟨rfl, not_not.mp hne⟩⟩

/-- Forgetting all flags. -/
theorem unregisterAll (h : Linked id c ctx) (stale : BitVec 64) :
    Linked id c ((Served.fd P id c stale).sricNoteUnregisterAll ctx).1 := by
  obtain ⟨t, hq, ht, hd⟩ := h.connected.noteClear (P := P)
  obtain ⟨hfd, hflags, -⟩ := Connected.sendCommand { ctx with
    noteflags := fun _ => 0, error := .none } h.connected h.unread stale .noteClear hq
  refine ⟨?_, ?_, ?_⟩
  · rw [Fd.sricNoteUnregisterAll]
    exact hfd ▸ ht
  · rw [Fd.sricNoteUnregisterAll]
    exact congrArg Served.unread hfd
  · rw [Fd.sricNoteUnregisterAll]
    have hrec := h.recorded.clear
    rw [← hd] at hrec
    show (((Served.fd P id c stale).sendCommand _ Request.noteClear.bytes).1.fd.ipc.devices).Recorded
      c ((Served.fd P id c stale).sendCommand _ Request.noteClear.bytes).1.noteflags
    rw [hfd, hflags]
    exact hrec

/-- The cache of a context that is linked mirrors the daemon. -/
theorem mirrors (h : Linked id c ctx) {a : Nat} (h2 : 2 ≤ a) (h128 : a < sricHighAddress) :
    ctx.noteflags a = ctx.fd.ipc.devices.held c a := (h.recorded.held h2 h128).symm

theorem step (h : Linked id c ctx) (stale : BitVec 64) {call : NoteCall}
    (hn : call.NamesDevice P ctx) : Linked id c (call.run P (Served.fd P id c stale) ctx).1 := by
  cases hs : call.sets P ctx with
  | none =>
      cases call with
      | unregisterAll => exact h.unregisterAll stale
      | _ => cases hs
  | some p =>
      obtain ⟨device, flags⟩ := p
      rw [run_sets hs]
      exact (h.setFlags stale (hn device flags hs)).1

/-- **One call**: the cache is right behind it exactly if it names a device
that exists where it has to. -/
theorem mirrored_iff (h : Linked id c ctx) (stale : BitVec 64) (call : NoteCall) :
    call.Mirrored P c (Served.fd P id c stale) ctx ↔ call.NamesDevice P ctx := by
  constructor
  · intro hx device flags hs hcheck hne
    obtain ⟨hm, -⟩ := hx
    rw [run_sets hs] at hm
    by_contra hk
    -- the cache has changed, and what the daemon holds has not
    have hq := Ipc.setFlags_absent (checkAddress_lt hcheck) (Bool.eq_false_iff.mpr hk) c flags
    obtain ⟨hfd, hflags, -⟩ := h.sendFlags stale hcheck hne hq
    have h2 := checkAddress_ge hcheck
    have hlt := checkAddress_lt hcheck
    have := hm device.toNat h2 hlt
    rw [hfd, hflags, Function.update_self, ← h.mirrors h2 hlt] at this
    exact hne this.symm
  · intro hn
    have hlink := h.step stale hn
    refine ⟨fun a h2 hlt => hlink.mirrors h2 hlt, ?_⟩
    intro device flags hs hrv
    rw [run_sets hs] at hlink hrv ⊢
    obtain ⟨hcheck, hflags⟩ := (h.setFlags stale (hn device flags hs)).2 hrv
    rw [← hlink.mirrors (checkAddress_ge hcheck) (checkAddress_lt hcheck), hflags]

end Linked

/-! ## All calls -/

/-- A client that has just connected: no flags are recorded for it. -/
structure Fresh (s : Ipc) (id c : Nat) : Prop extends Connected s id c where
  silent : ∀ a, ∀ t ∈ s.devices.targets a, t.c ≠ c

theorem Fresh.linked {s : Ipc} {id c : Nat} (h : Fresh s id c) :
    Linked id c (.init ⟨s, []⟩) where
  connected := h.toConnected
  unread := rfl
  recorded a _ _ := List.filter_eq_nil_iff.mpr fun t ht => by
    simpa using h.silent a t ht

/-- **The cache mirrors the daemon** behind every one of a sequence of
calls, and success means that the daemon holds what was set, exactly if
the calls name devices that exist where they have to. -/
theorem note_cache_mirrored_iff (P : Platform) (stale : BitVec 64) {s : Ipc} {id c : Nat}
    (h : Fresh s id c) (calls : List NoteCall) :
    Along (NoteCall.step P (Served.fd P id c stale))
        (NoteCall.Mirrored P c (Served.fd P id c stale)) (.init ⟨s, []⟩) calls
      ↔ Along (NoteCall.step P (Served.fd P id c stale)) (NoteCall.NamesDevice P) (.init ⟨s, []⟩)
        calls := by
  refine along_congr (I := Linked id c) (fun ctx call hl => hl.mirrored_iff stale call) ?_ h.linked
  intro ctx call ctx' rvs hl hn hstep
  cases hstep
  exact hl.step stale hn

theorem fresh_first (d : Devices) (h : ∀ a, d.targets a = []) :
    Fresh { Ipc.init.new with devices := d } 1 0 where
  watched := show (1, IpcSource.incoming 0) ∈ Ipc.init.new.loop.live by decide
  accepted := Nat.one_pos
  socket := rfl
  client := ⟨.create, rfl⟩
  silent a t ht := by
    change t ∈ d.targets a at ht
    rw [h a] at ht
    cases ht

/-- Notes of a device that exists, and of none. -/
theorem note_cache_mirrored_pair :
    Along (NoteCall.step .x86 (Served.fd .x86 1 0 0))
      (NoteCall.Mirrored .x86 0 (Served.fd .x86 1 0 0))
      (.init ⟨{ Ipc.init.new with devices := Devices.reset.deviceAdd 2 5 }, []⟩)
      [.setFlags 2 6, .unregisterDevice 3] := by
  refine (note_cache_mirrored_iff .x86 0 (fresh_first (Devices.reset.deviceAdd 2 5) fun _ => rfl)
    _).mpr ⟨?_, fun t rvs h => ⟨?_, fun _ _ _ => trivial⟩⟩
  · rintro device flags h - -
    cases h
    rfl
  · rintro device flags hs - hne
    cases h
    cases hs
    exact absurd rfl hne

/-- Flags for a device that does not exist are cached, and the daemon
refuses them. -/
theorem note_cache_keeps_refused :
    ¬∀ (P : Platform) (stale : BitVec 64) (s : Ipc) (id c : Nat) (calls : List NoteCall),
      Fresh s id c → Along (NoteCall.step P (Served.fd P id c stale))
        (NoteCall.Mirrored P c (Served.fd P id c stale)) (.init ⟨s, []⟩) calls := by
  intro h
  have hm := (h .x86 0 _ 1 0 [.setFlags 2 1] (fresh_first Devices.reset fun _ => rfl)).1
  have := hm.1 2 (by decide) (by decide)
  revert this
  decide +kernel

end Sricd
