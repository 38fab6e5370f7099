import Sricd.Bounds
import Sricd.Incoming
import Sricd.Session

/-!
# One status for each request

A request that is read has one status in reply, and one that reports an
error has changed nothing. `handle_note_flags` is the exception: without
its flags it reports the error and goes on (`one_status_iff`).
-/

namespace Sricd

open Sricd.Lib

/-- The status that a reply begins with. -/
def Reply.result : Reply → Byte
  | .status result => result
  | .frame _ => eSuccess
  | .devices _ => eSuccess

namespace Ipc

/-- What there is to say of a request with the command `cmd` is said once:
one reply, behind which nothing has changed if it reports an error, or
none by a poll that now waits. -/
def OneStatus (s : Ipc) (c : Nat) (cmd : Byte) (r : Result) : Prop :=
  ∃ s' out, r = .ok (s', out)
    ∧ ((∃ reply, replies out = [(c, reply)] ∧ (reply.result ≠ eSuccess →
          out = [.reply c reply] ∧ s'.clients = s.clients ∧ s'.devices = s.devices
            ∧ s'.loop = s.loop))
      ∨ (out = [] ∧ ∃ k cl, cmd = (Request.poll k 0).cmd ∧ s'.clients c = some cl
          ∧ (cl.box k).ping = true))

/-- A NOTE_FLAGS request, command included, that ends within its flags. -/
def CutFlags (inbox : List Byte) : Prop :=
  inbox.head? = some 1 ∧ 3 ≤ inbox.length ∧ inbox.length < 11

instance : DecidablePred CutFlags := fun _ => instDecidableAnd

section
variable {s t : Ipc} {c : Nat} {cmd : Byte}

/-- A single status. -/
theorem oneStatus_result (hclients : t.clients = s.clients) (hdevices : t.devices = s.devices)
    (hloop : t.loop = s.loop) (b : Byte) : OneStatus s c cmd (t.result c b) :=
  ⟨t, _, rfl, .inl ⟨_, rfl, fun _ => ⟨rfl, hclients, hdevices, hloop⟩⟩⟩

/-- A success, or what comes with it. -/
theorem oneStatus_success (reply : Reply) {out : List IpcOut}
    (h : replies out = [(c, reply)]) (hr : reply.result = eSuccess) :
    OneStatus s c cmd (.ok (t, out)) :=
  ⟨t, out, rfl, .inl ⟨reply, h, fun hne => absurd hr hne⟩⟩

/-- A whole request has its status, unless it leaves an array. -/
theorem serve_oneStatus {P : Platform} {cl : Client} {q : Request} (hcl : s.clients c = some cl)
    (hsafe : q.serve P s c ≠ .error .outOfBounds) : OneStatus s c q.cmd (q.serve P s c) := by
  have hclient : s.client c = .ok cl := by
    rw [client, hcl]
  cases q with
  | tx address payload hlt =>
      rw [Request.serve] at hsafe ⊢
      split at hsafe
      · rename_i h64
        rw [dif_pos h64]
        rw [transmit, Devices.deviceExists] at hsafe ⊢
        by_cases h128 : address.toNat < deviceHighAddress
        · rw [if_pos h128, ok_bind]
          split
          · exact oneStatus_success (.status eSuccess) rfl rfl
          · exact oneStatus_result rfl rfl rfl _
        · rw [if_neg h128] at hsafe
          exact absurd rfl hsafe
      · exact absurd rfl hsafe
  | poll k timeout =>
      rw [Request.serve, poll, hclient, ok_bind]
      split
      · exact oneStatus_success (.frame _) rfl rfl
      · have hcmd : (Request.poll k timeout).cmd = (Request.poll k 0).cmd := by cases k <;> rfl
        rw [hcmd, await]
        split
        · exact oneStatus_result rfl rfl rfl _
        · split <;>
          · refine ⟨_, _, rfl, .inr ⟨rfl, k, _, rfl, Function.update_self .., ?_⟩⟩
            rw [Client.setBox_box, if_pos rfl]
  | noteFlags device flags =>
      rw [Request.serve, setFlags, Devices.deviceExists] at hsafe ⊢
      by_cases h128 : device.toNat < deviceHighAddress
      · rw [if_pos h128, ok_bind]
        split
        · rw [hclient, ok_bind]
          exact oneStatus_success (.status eSuccess) rfl rfl
        · exact oneStatus_result rfl rfl rfl _
      · rw [if_neg h128] at hsafe
        exact absurd rfl hsafe
  | noteClear =>
      rw [Request.serve, handleNoteClear, clearClientNotes, hclient]
      exact oneStatus_success (.status eSuccess) rfl rfl
  | listDevices => exact oneStatus_success (.devices _) rfl rfl

/-- Without its flags a request has two statuses, or goes out of bounds. -/
theorem cutFlags_twice (P : Platform) (stale : BitVec 64) (device : BitVec 16) :
    ¬OneStatus s c cmd ((Heard.cutFlags device).serve P t c stale) := by
  intro hx
  obtain ⟨s', out, hr, hone⟩ := hx
  obtain ⟨⟨u, o⟩, hset, hr⟩ := bind_ok.mp hr
  cases hr
  obtain ⟨⟨b, hb⟩, -⟩ := Session.setFlags_outcome hset
  rcases hone with ⟨reply, hone, -⟩ | ⟨hnil, -⟩
  · have hlen := congrArg List.length hone
    have htwo : replies (.reply c (.status eBadRequest) :: o)
        = (c, .status eBadRequest) :: replies o := rfl
    rw [htwo, hb] at hlen
    cases hlen
  · cases hnil

end

/-! ## What is heard -/

/-- A request that is cut off in its flags is heard as such. -/
theorem noteFlags_cut {closed : Bool} {inbox : List Byte}
    (h : (Heard.noteFlags closed inbox).1 ≠ .nothing) :
    (∃ d, (Heard.noteFlags closed inbox).1 = .cutFlags d)
      ↔ 2 ≤ inbox.length ∧ inbox.length < 10 := by
  rcases inbox with _ | ⟨d1, _ | ⟨d0, rest⟩⟩
  iterate 2
    refine iff_of_false ?_ (by simp)
    intro hx
    obtain ⟨d, hd⟩ := hx
    simp only [Heard.noteFlags] at hd
    rcases short_cases closed _ .malformed with hs | hs <;> cases hs.symm.trans hd
  rw [Heard.noteFlags] at h ⊢
  rcases rest with
    _ | ⟨b7, _ | ⟨b6, _ | ⟨b5, _ | ⟨b4, _ | ⟨b3, _ | ⟨b2, _ | ⟨b1, _ | ⟨b0, rest⟩⟩⟩⟩⟩⟩⟩⟩
  iterate 8
    refine iff_of_true ⟨d1 ++ d0, ?_⟩ (by simp)
    simp only [Heard.flags] at h ⊢
    exact (short_cases closed _ _).resolve_left h
  refine iff_of_false ?_ (by simp)
  intro hx
  obtain ⟨d, hd⟩ := hx
  cases hd

theorem hear_cut (closed : Bool) (cmd : Byte) (inbox : List Byte)
    (h : (hear closed cmd inbox).1 ≠ .nothing) :
    (∃ d, (hear closed cmd inbox).1 = .cutFlags d) ↔ CutFlags (cmd :: inbox) := by
  by_cases hcmd : cmd = 1
  · subst hcmd
    refine (noteFlags_cut h).trans ?_
    simp only [CutFlags, List.head?_cons, List.length_cons, true_and]
    omega
  · refine iff_of_false ?_ fun hcut => hcmd (Option.some.inj hcut.1)
    intro hx
    obtain ⟨d, hd⟩ := hx
    have hfor := hear_for closed cmd inbox
    rw [hd] at hfor
    exact hcmd (BitVec.eq_of_toNat_eq hfor)

/-- **When a request has one status**: whatever a client has sent, the
handler that reads it replies once, or waits with a poll, and an error has
changed nothing, exactly when the request keeps to the arrays and is not a
NOTE_FLAGS request without its flags. -/
theorem one_status_iff {P : Platform} {s : Ipc} {id c : Nat} {stale : BitVec 64} {cl : Client}
    {cmd : Byte} {inbox : List Byte} (hcl : s.clients c = some cl)
    (hin : (s.sockets c).inbox = cmd :: inbox)
    (hready : s.clientIncoming P id c stale ≠ .error .disabled) :
    OneStatus s c cmd (s.clientIncoming P id c stale)
      ↔ (s.sockets c).Fits ∧ ¬CutFlags (s.sockets c).inbox := by
  have hfits := not_congr (clientIncoming_faults P s id c stale)
  rw [not_not] at hfits
  rw [← hfits, hin]
  rw [clientIncoming_hear P hin] at hready ⊢
  have hfor := hear_for (s.sockets c).closed cmd inbox
  have hcut := hear_cut (s.sockets c).closed cmd inbox
  generalize (hear (s.sockets c).closed cmd inbox).2 = rest at hready ⊢
  generalize (hear (s.sockets c).closed cmd inbox).1 = heard at hready hfor hcut ⊢
  cases heard with
  | nothing => exact absurd rfl hready
  | overflow =>
      refine iff_of_false ?_ fun h => h.1 rfl
      intro hx
      obtain ⟨s', out, hr, -⟩ := hx
      cases hr
  | malformed =>
      refine iff_of_true (oneStatus_result rfl rfl rfl _) ⟨nofun, fun h => ?_⟩
      obtain ⟨d, hd⟩ := (hcut nofun).mpr h
      cases hd
  | request q =>
      have hq : q.cmd = cmd := BitVec.eq_of_toNat_eq hfor
      have hnot : ¬CutFlags (cmd :: inbox) := by
        intro h
        obtain ⟨d, hd⟩ := (hcut nofun).mpr h
        cases hd
      rw [and_iff_left hnot]
      constructor
      · intro hx hout
        obtain ⟨s', out, hr, -⟩ := hx
        cases hr.symm.trans hout
      · intro hsafe
        obtain ⟨s', out, hr, hone⟩ := serve_oneStatus (s := s.setSocket c ⟨rest, _⟩) hcl hsafe
        exact ⟨s', out, hr, hq ▸ hone⟩
  | cutFlags device =>
      exact iff_of_false (cutFlags_twice P stale device) fun h => h.2 ((hcut nofun).mp ⟨device, rfl⟩)

/-- One client, which has sent these bytes. -/
def sent (bytes : List Byte) : Ipc := init.new.setSocket 0 ⟨bytes, false⟩

theorem one_status_poll : OneStatus (sent [2, 0, 0, 0, 0]) 0 2
    ((sent [2, 0, 0, 0, 0]).clientIncoming .x86 1 0 0) := by
  have hready : (sent [2, 0, 0, 0, 0]).clientIncoming .x86 1 0 0
      = .ok (_, [.reply 0 (.status eTimeout)]) := rfl
  have hclient : (sent [2, 0, 0, 0, 0]).clients 0 = some .create := rfl
  exact (one_status_iff hclient rfl (by rw [hready]; simp)).mpr ⟨by decide, by decide⟩

/-- NOTE_FLAGS for device 0, with the first byte of the flags, 05: two
statuses, and the client is registered for what the variable holds then. -/
theorem note_flags_two_statuses :
    ∃ s' out, (sent [1, 0, 0, 5]).clientIncoming .x86 1 0 0x0500000000000000 = .ok (s', out)
      ∧ replies out = [(0, .status eBadRequest), (0, .status eSuccess)]
      ∧ s'.devices.targets 0 = [⟨0, 0x0500000000000000⟩]
      ∧ ¬OneStatus (sent [1, 0, 0, 5]) 0 1
        ((sent [1, 0, 0, 5]).clientIncoming .x86 1 0 0x0500000000000000) := by
  refine ⟨_, _, rfl, rfl, rfl, ?_⟩
  have hin : ((sent [1, 0, 0, 5]).sockets 0).inbox = 1 :: [0, 0, 5] := rfl
  rw [clientIncoming_hear .x86 hin]
  exact cutFlags_twice (t := (sent [1, 0, 0, 5]).setSocket 0 ⟨[], false⟩) .x86 0x0500000000000000 0

end Ipc

end Sricd
