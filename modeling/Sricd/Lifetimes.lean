import Sricd.Bounds
import Sricd.Cancel
import Sricd.Session

/-!
# What is left of a client

`client_destroy` frees a client and takes its frames and most of its notes
away, but neither its watch for input nor the timeouts of its polls.
Nothing is called back with a client that is gone, and nothing touches it,
in exactly the runs in which these were gone before
(`clients_outlived_iff`).
-/

namespace Sricd

open Sricd.Lib

/-- The client that a source is called back with. -/
def IpcSource.client : IpcSource → Option Nat
  | .new => none
  | .incoming c => some c
  | .death c => some c
  | .timeout _ c => some c

/-- The source is one of the two watches of `ipc_new`. -/
def IpcSource.isWatch : IpcSource → Bool
  | .incoming _ => true
  | .death _ => true
  | _ => false

namespace Ipc

/-- What is known of the clients: those of `alive` are allocated, and only
they are named, and those of `ended` have no watch for input any more. -/
structure Tidy (alive : Nat → Prop) (ended : List Nat) (s : Ipc) : Prop where
  clients : ∀ c, s.clients c ≠ none ↔ alive c
  accepted : ∀ c, alive c ∨ c ∈ ended → c < s.accepted
  sources : ∀ id k c, (id, k) ∈ s.loop.live → k.client = some c → alive c
  watched : ∀ c, alive c → ((∃ id, (id, .incoming c) ∈ s.loop.live) ↔ c ∉ ended)
  unique : ∀ id id' k, k.isWatch = true → (id, k) ∈ s.loop.live → (id', k) ∈ s.loop.live → id = id'
  timers : ∀ c cl k, s.clients c = some cl → (cl.box k).timer < s.loop.nextId
    ∧ ∀ src, ((cl.box k).timer, src) ∈ s.loop.live → src = .timeout k c
  targets : ∀ a, ∀ t ∈ s.devices.targets a, alive t.c ∧ t.flags ≠ 0 ∧ a < deviceHighAddress
  single : ∀ a, Devices.Single (s.devices.targets a)

namespace Tidy

variable {alive : Nat → Prop} {ended : List Nat} {s : Ipc}

theorem setSocket (h : Tidy alive ended s) (c : Nat) (k : Socket) :
    Tidy alive ended (s.setSocket c k) :=
  ⟨h.clients, h.accepted, h.sources, h.watched, h.unique, h.timers, h.targets, h.single⟩

/-- A client is written back, with timeouts that are its own. -/
theorem setClient (h : Tidy alive ended s) {c : Nat} (hc : alive c) {cl : Client}
    (hk : ∀ k, (cl.box k).timer < s.loop.nextId
      ∧ ∀ src, ((cl.box k).timer, src) ∈ s.loop.live → src = .timeout k c) :
    Tidy alive ended (s.setClient c cl) where
  clients d := by
    by_cases hd : d = c
    · subst hd
      simp [Ipc.setClient, hc]
    · simp only [Ipc.setClient, Function.update_of_ne hd]
      exact h.clients d
  accepted := h.accepted
  sources := h.sources
  watched := h.watched
  unique := h.unique
  timers d cl' k hd := by
    rcases update_clients hd with ⟨rfl, rfl⟩ | ⟨-, hd⟩
    · exact hk k
    · exact h.timers d cl' k hd
  targets := h.targets
  single := h.single

/-- A client is written back with the timeouts it had, or none. -/
theorem setClient_like (h : Tidy alive ended s) {c : Nat} {cl cl' : Client}
    (hc : s.clients c = some cl)
    (hk : ∀ k, (cl'.box k).timer = (cl.box k).timer ∨ (cl'.box k).timer = 0) :
    Tidy alive ended (s.setClient c cl') := by
  have halive : alive c := (h.clients c).mp (by rw [hc]; simp)
  apply h.setClient halive
  intro k
  rcases hk k with heq | h0
  · rw [heq]
    exact h.timers c cl k hc
  · rw [h0]
    exact ⟨s.loop.nextId_pos, fun src hl => absurd hl (s.loop.zero_not_live src)⟩

/-- A source is registered that is no watch of a client. -/
theorem add (h : Tidy alive ended s) {k : IpcSource} (hk : k.isWatch = false)
    (hc : ∀ c, k.client = some c → alive c) :
    Tidy alive ended { s with loop := s.loop.add k } where
  clients := h.clients
  accepted := h.accepted
  sources id src d hl hd := by
    rcases (MainLoop.mem_add ..).mp hl with hl | hl
    · exact h.sources id src d hl hd
    · cases hl
      exact hc d hd
  watched d hd := by
    rw [← h.watched d hd]
    apply exists_congr
    intro id
    rw [MainLoop.mem_add, or_iff_left_iff_imp]
    intro hl
    cases hl
    cases hk
  unique id id' src hw hl hl' := by
    rcases (MainLoop.mem_add ..).mp hl with hl | hl
    · rcases (MainLoop.mem_add ..).mp hl' with hl' | hl'
      · exact h.unique id id' src hw hl hl'
      · cases hl'
        cases hk.symm.trans hw
    · cases hl
      cases hk.symm.trans hw
  timers d cl j hd := by
    obtain ⟨hlt, hown⟩ := h.timers d cl j hd
    refine ⟨Nat.lt_succ_of_lt hlt, ?_⟩
    intro src hl
    rcases (MainLoop.mem_add ..).mp hl with hl | hl
    · exact hown src hl
    · exact absurd (congrArg Prod.fst hl) (Nat.ne_of_lt hlt)
  targets := h.targets
  single := h.single

/-- A timeout of a client is registered. -/
theorem await (h : Tidy alive ended s) {c : Nat} (hc : alive c) (k : Poll) :
    Tidy alive ended { s with loop := s.loop.add (.timeout k c) } := by
  apply h.add rfl
  intro d hd
  cases hd
  exact hc

/-- A timeout is removed, or nothing. -/
theorem remove (h : Tidy alive ended s) {id : Nat}
    (hid : ∀ src, (id, src) ∈ s.loop.live → src.isWatch = false) :
    Tidy alive ended { s with loop := s.loop.remove id } where
  clients := h.clients
  accepted := h.accepted
  sources id' src d hl hd := h.sources id' src d ((MainLoop.mem_remove ..).mp hl).1 hd
  watched d hd := by
    rw [← h.watched d hd]
    apply exists_congr
    intro id'
    rw [MainLoop.mem_remove, and_iff_left_iff_imp]
    intro hl hx
    obtain rfl := hx
    cases hid _ hl
  unique id' id'' src hw hl hl' :=
    h.unique id' id'' src hw ((MainLoop.mem_remove ..).mp hl).1 ((MainLoop.mem_remove ..).mp hl').1
  timers d cl j hd := by
    obtain ⟨hlt, hown⟩ := h.timers d cl j hd
    exact ⟨hlt, fun src hl => hown src ((MainLoop.mem_remove ..).mp hl).1⟩
  targets := h.targets
  single := h.single

/-- The lists of the device table are changed. -/
theorem devices (h : Tidy alive ended s) {d : Devices}
    (ht : ∀ a, ∀ t ∈ d.targets a, alive t.c ∧ t.flags ≠ 0 ∧ a < deviceHighAddress)
    (hs : ∀ a, Devices.Single (d.targets a)) : Tidy alive ended { s with devices := d } :=
  ⟨h.clients, h.accepted, h.sources, h.watched, h.unique, h.timers, ht, hs⟩

/-- The notes of a client are set. -/
theorem setClientNotes (h : Tidy alive ended s) {c a : Nat} (hc : alive c)
    (ha : a < deviceHighAddress) (notes : BitVec 64) :
    Tidy alive ended { s with devices := s.devices.setClientNotes a c notes } := by
  refine h.devices (?_) ?_
  · intro b t ht
    rw [Devices.setClientNotes_targets] at ht
    by_cases hb : b = a
    · rw [hb, Function.update_self] at ht
      split at ht
      · rename_i hne
        rcases Devices.mem_updateTarget ht with rfl | ht
        · exact ⟨hc, hne, hb ▸ ha⟩
        · exact hb ▸ h.targets a t ht
      · exact hb ▸ h.targets a t ((Devices.mem_dropTarget (h.single a)).mp ht).1
    · rw [Function.update_of_ne hb] at ht
      exact h.targets b t ht
  · intro b
    rw [Devices.setClientNotes_targets]
    by_cases hb : b = a
    · rw [hb, Function.update_self]
      split
      · exact (h.single a).update c notes
      · exact (h.single a).drop c
    · rw [Function.update_of_ne hb]
      exact h.single b

/-- The notes of a client are cleared. -/
theorem clearDevices (h : Tidy alive ended s) (c : Nat) :
    Tidy alive ended { s with devices := s.devices.clearClientNotes c } := by
  refine h.devices (?_) ?_
  · intro b t ht
    rw [Devices.clearClientNotes_targets] at ht
    split at ht
    · exact h.targets b t ((Devices.mem_dropTarget (h.single b)).mp ht).1
    · exact h.targets b t ht
  · intro b
    rw [Devices.clearClientNotes_targets]
    split
    · exact (h.single b).drop c
    · exact h.single b

theorem client (h : Tidy alive ended s) {c : Nat} (hc : alive c) :
    ∃ cl, s.clients c = some cl ∧ s.client c = .ok cl := by
  obtain ⟨cl, hcl⟩ := Option.ne_none_iff_exists'.mp ((h.clients c).mpr hc)
  exact ⟨cl, hcl, by rw [Ipc.client, hcl]⟩

end Tidy

/-! ## Requests -/

/-- A callback that keeps `I`, and touches no client that is gone. -/
structure Lawful (I : Ipc → Prop) (r : Result) : Prop where
  keeps : ∀ s' out, r = .ok (s', out) → I s'
  safe : r ≠ .error .badPointer

theorem lawful_ok {I : Ipc → Prop} {s : Ipc} (h : I s) (out : List IpcOut) :
    Lawful I (.ok (s, out)) := by
  refine ⟨?_, by simp⟩
  intro _ _ hx
  obtain ⟨⟩ := hx
  exact h

theorem lawful_error {I : Ipc → Prop} {x : Halt} (hx : x ≠ .badPointer) : Lawful I (.error x) := by
  refine ⟨?_, fun h => hx (Except.error.inj h)⟩
  intro _ _ hx
  obtain ⟨⟩ := hx

theorem lawful_bind {I : Ipc → Prop} {α : Type} {x : Except Halt α} {f : α → Result}
    (hx : x ≠ .error .badPointer) (h : ∀ a, x = .ok a → Lawful I (f a)) : Lawful I (x >>= f) := by
  constructor
  · intro s' out hr
    obtain ⟨a, ha, hf⟩ := bind_ok.mp hr
    exact (h a ha).keeps s' out hf
  · intro hr
    obtain hr | ⟨a, ha, hr⟩ := bind_error.mp hr
    · exact hx hr
    · exact (h a ha).safe hr

namespace Tidy

variable {alive : Nat → Prop} {ended : List Nat} {s : Ipc}

theorem result_lawful (h : Tidy alive ended s) (c : Nat) (b : Byte) :
    Lawful (Tidy alive ended) (s.result c b) := lawful_ok h _

/-- A client that is there. -/
theorem client_lawful (h : Tidy alive ended s) {c : Nat} (hc : alive c) {f : Client → Result}
    (hf : ∀ cl, s.clients c = some cl → Lawful (Tidy alive ended) (f cl)) :
    Lawful (Tidy alive ended) (s.client c >>= f) := by
  obtain ⟨cl, hcl, hok⟩ := h.client hc
  rw [hok]
  exact hf cl hcl

/-- A look at the device table. -/
theorem exists_lawful (P : Platform) (d : Devices) (a : Nat) {f : Bool → Result}
    (hf : a < deviceHighAddress → ∀ b, Lawful (Tidy alive ended) (f b)) :
    Lawful (Tidy alive ended) (d.deviceExists P a >>= f) := by
  rw [Devices.deviceExists]
  by_cases ha : a < deviceHighAddress
  · rw [if_pos ha]
    exact hf ha _
  · rw [if_neg ha]
    exact lawful_error (by simp)

theorem await_lawful (h : Tidy alive ended s) (k : Poll) {c : Nat} {cl : Client}
    (hc : s.clients c = some cl) (timeout : BitVec 32) :
    Lawful (Tidy alive ended) (Ipc.await k s c cl timeout) := by
  have halive : alive c := (h.clients c).mp (by rw [hc]; simp)
  rw [Ipc.await]
  split
  · exact h.result_lawful _ _
  · split
    · refine lawful_ok (h.setClient_like hc fun j => .inl ?_) _
      rw [Client.setBox_box]
      by_cases hj : j = k
      · rw [if_pos hj, hj]
      · rw [if_neg hj]
    · refine lawful_ok ((h.await halive k).setClient halive fun j => ?_) _
      rw [Client.setBox_box]
      by_cases hj : j = k
      · -- the new timeout is the client's own
        rw [if_pos hj, hj]
        refine ⟨Nat.lt_succ_self _, ?_⟩
        intro src hl
        rcases (MainLoop.mem_add ..).mp hl with hl | hl
        · exact absurd hl (s.loop.nextId_not_live src)
        · exact congrArg Prod.snd hl
      · rw [if_neg hj]
        exact (h.await halive k).timers c cl j hc

theorem poll_lawful (h : Tidy alive ended s) (k : Poll) {c : Nat} (hc : alive c)
    (timeout : BitVec 32) : Lawful (Tidy alive ended) (s.poll k c timeout) := by
  apply h.client_lawful hc
  intro cl hcl
  split
  · rename_i hpop
    exact lawful_ok (h.setClient_like hcl fun j => .inl (Session.pop_like hpop j).1) _
  · exact h.await_lawful k hcl _

theorem setFlags_lawful (P : Platform) (h : Tidy alive ended s) {c : Nat} (hc : alive c)
    (device : Nat) (flags : BitVec 64) :
    Lawful (Tidy alive ended) (s.setFlags P c device flags) := by
  apply exists_lawful P s.devices device
  intro hlt b
  split
  · apply h.client_lawful hc
    intro cl hcl
    refine lawful_ok ((h.setClientNotes hc hlt flags).setClient_like hcl fun j => .inl ?_) _
    rw [Client.setNoteData_box]
  · exact h.result_lawful _ _

/-- `device_clear_client_notes`. -/
theorem clearClientNotes (P : Platform) (h : Tidy alive ended s) {c : Nat} (hc : alive c) :
    ∃ cl, s.clients c = some cl
      ∧ s.clearClientNotes P c = .ok ({ s with devices := s.devices.clearClientNotes c }.setClient c
        (cl.clearNoteData P))
      ∧ Tidy alive ended ({ s with devices := s.devices.clearClientNotes c }.setClient c
        (cl.clearNoteData P)) := by
  obtain ⟨cl, hcl, hok⟩ := h.client hc
  refine ⟨cl, hcl, ?_, (h.clearDevices c).setClient_like hcl fun j => .inl ?_⟩
  · rw [Ipc.clearClientNotes, hok]
    rfl
  · rw [Client.clearNoteData_box]

/-- Whatever is heard of a client that is there. -/
theorem serve_lawful (P : Platform) (h : Tidy alive ended s) {c : Nat} (hc : alive c)
    (stale : BitVec 64) (heard : Heard) :
    Lawful (Tidy alive ended) (heard.serve P s c stale) := by
  cases heard with
  | nothing | overflow => exact lawful_error (by simp)
  | malformed => exact h.result_lawful _ _
  | cutFlags device =>
      have hset := h.setFlags_lawful P hc device.toNat stale
      exact lawful_bind hset.safe fun ⟨t, out⟩ ht => lawful_ok (hset.keeps t out ht) _
  | request q =>
      cases q with
      | tx address payload hlt =>
          rw [Heard.serve, Request.serve]
          split
          · apply exists_lawful P s.devices _
            intro _ b
            split
            · exact lawful_ok h _
            · exact h.result_lawful _ _
          · exact lawful_error (by simp)
      | poll k timeout => exact h.poll_lawful k hc timeout
      | noteFlags device flags => exact h.setFlags_lawful P hc _ _
      | noteClear =>
          obtain ⟨cl, -, hok, ht⟩ := h.clearClientNotes P hc
          rw [Heard.serve, Request.serve, handleNoteClear, hok]
          exact ht.result_lawful _ _
      | listDevices => exact lawful_ok h _

end Tidy

/-! ## Connections -/

/-- The client is allocated. -/
def Alive (s : Ipc) (c : Nat) : Prop := s.clients c ≠ none

/-- The client whose end a callback reads. -/
def ends (s : Ipc) : IpcEvent → List Nat
  | .incoming _ c _ => if (s.sockets c).inbox = [] then [c] else []
  | _ => []

/-- Nothing is left of the client that `client_destroy` leaves alone: its
watch for input has read the end, no poll waits with a timeout, and it has
no notes of the two addresses that `device_clear_client_notes` skips. -/
structure Finished (ended : List Nat) (s : Ipc) (c : Nat) : Prop where
  ended : c ∈ ended
  timeouts : ∀ id k, (id, .timeout k c) ∉ s.loop.live
  notes : ∀ a, a < 2 → ∀ t ∈ s.devices.targets a, t.c ≠ c

namespace Tidy

variable {alive : Nat → Prop} {ended : List Nat} {s : Ipc}

theorem self (h : Tidy alive ended s) : Tidy s.Alive ended s := by
  have : s.Alive = alive := funext fun c => propext (h.clients c)
  rw [this]
  exact h

theorem new (h : Tidy alive ended s) : Tidy (fun d => alive d ∨ d = s.accepted) ended s.new := by
  have hfresh : ¬alive s.accepted := fun hc => Nat.lt_irrefl _ (h.accepted _ (.inl hc))
  have hold : ∀ id k, (id, k) ∈ s.loop.live → k.client ≠ some s.accepted :=
    fun id k hl hk => hfresh (h.sources id k _ hl hk)
  constructor
  case clients =>
    intro d
    by_cases hd : d = s.accepted
    · simp [Ipc.new, hd]
    · simp only [Ipc.new, Function.update_of_ne hd, or_iff_left hd]
      exact h.clients d
  case accepted =>
    intro d hx
    rcases hx with (hd | rfl) | hd
    · exact Nat.lt_succ_of_lt (h.accepted d (.inl hd))
    · exact Nat.lt_succ_self _
    · exact Nat.lt_succ_of_lt (h.accepted d (.inr hd))
  case sources =>
    intro id k d hl hd
    rcases new_live.mp hl with hl | ⟨-, rfl⟩ | ⟨-, rfl⟩
    · exact .inl (h.sources id k d hl hd)
    · cases hd
      exact .inr rfl
    · cases hd
      exact .inr rfl
  case watched =>
    intro d hd
    by_cases hda : d = s.accepted
    · refine iff_of_true ⟨s.loop.nextId, ?_⟩ ?_
      · rw [hda]
        exact new_live.mpr (.inr (.inl ⟨rfl, rfl⟩))
      · intro hc
        exact Nat.ne_of_lt (h.accepted d (.inr hc)) hda
    · rw [← h.watched d (hd.resolve_right hda)]
      refine exists_congr fun id => ⟨?_, ?_⟩
      · intro hl
        rcases new_live.mp hl with hl | ⟨-, hk⟩ | ⟨-, hk⟩
        · exact hl
        · exact absurd (IpcSource.incoming.inj hk) hda
        · cases hk
      · intro hl
        exact new_live.mpr (.inl hl)
  case unique =>
    intro id id' k hw hl hl'
    rcases new_live.mp hl with hl | ⟨rfl, rfl⟩ | ⟨rfl, rfl⟩
    · rcases new_live.mp hl' with hl' | ⟨-, rfl⟩ | ⟨-, rfl⟩
      · exact h.unique id id' k hw hl hl'
      · exact absurd rfl (hold id _ hl)
      · exact absurd rfl (hold id _ hl)
    · rcases new_live.mp hl' with hl' | ⟨rfl, -⟩ | ⟨-, hk⟩
      · exact absurd rfl (hold id' _ hl')
      · rfl
      · cases hk
    · rcases new_live.mp hl' with hl' | ⟨-, hk⟩ | ⟨rfl, -⟩
      · exact absurd rfl (hold id' _ hl')
      · cases hk
      · rfl
  case timers =>
    intro d cl k hd
    rcases new_clients hd with ⟨-, rfl⟩ | ⟨-, hd⟩
    · exact ⟨Nat.succ_pos _, fun src hl => absurd hl (s.new.loop.zero_not_live src)⟩
    · obtain ⟨hlt, hown⟩ := h.timers d cl k hd
      refine ⟨Nat.lt_succ_of_lt (Nat.lt_succ_of_lt hlt), ?_⟩
      intro src hl
      rcases new_live.mp hl with hl | ⟨hid, -⟩ | ⟨hid, -⟩
      · exact hown src hl
      · exact absurd hid (Nat.ne_of_lt hlt)
      · exact absurd hid (Nat.ne_of_lt (Nat.lt_succ_of_lt hlt))
  case targets =>
    intro a t ht
    obtain ⟨hc, hrest⟩ := h.targets a t ht
    exact ⟨.inl hc, hrest⟩
  case single => exact h.single

/-- The watch for input is not called again. -/
theorem eof (h : Tidy alive ended s) {id c : Nat} (hl : (id, .incoming c) ∈ s.loop.live) :
    Tidy alive (ended ++ [c]) { s with loop := s.loop.remove id } where
  clients := h.clients
  accepted d hd := by
    rcases hd with hd | hd
    · exact h.accepted d (.inl hd)
    · rcases List.mem_append.mp hd with hd | hd
      · exact h.accepted d (.inr hd)
      · rw [List.mem_singleton.mp hd]
        exact h.accepted c (.inl (h.sources id _ c hl rfl))
  sources id' k d hl' hd := h.sources id' k d ((MainLoop.mem_remove ..).mp hl').1 hd
  watched d hd := by
    rw [List.mem_append, List.mem_singleton, not_or, ← h.watched d hd]
    constructor
    · intro hx
      obtain ⟨id', hl'⟩ := hx
      obtain ⟨hl', hne⟩ := (MainLoop.mem_remove ..).mp hl'
      refine ⟨⟨id', hl'⟩, ?_⟩
      intro hx
      obtain rfl := hx
      exact hne (h.unique id' id _ rfl hl' hl)
    · intro hx
      obtain ⟨⟨id', hl'⟩, hdc⟩ := hx
      refine ⟨id', (MainLoop.mem_remove ..).mpr ⟨hl', ?_⟩⟩
      intro hcase
      obtain rfl := hcase
      exact hdc (IpcSource.incoming.inj (MainLoop.kind_unique hl' hl))
  unique id' id'' k hw hl' hl'' :=
    h.unique id' id'' k hw ((MainLoop.mem_remove ..).mp hl').1 ((MainLoop.mem_remove ..).mp hl'').1
  timers d cl k hd := by
    obtain ⟨hlt, hown⟩ := h.timers d cl k hd
    exact ⟨hlt, fun src hl' => hown src ((MainLoop.mem_remove ..).mp hl').1⟩
  targets := h.targets
  single := h.single

/-- `ipc_client_death`. -/
theorem clientDeath_ok (P : Platform) (h : Tidy alive ended s) {c : Nat} (hc : alive c) (id : Nat) :
    s.clientDeath P id c = .ok ({ s with
      loop := s.loop.remove id
      clients := Function.update s.clients c none
      devices := s.devices.clearClientNotes c }, [.cancel c]) := by
  obtain ⟨cl, -, hok, -⟩ := h.clearClientNotes P hc
  rw [clientDeath, clientDestroy, hok, ok_bind, ok_bind]
  simp only [Ipc.setClient, Ipc.drop, Function.update_idem]

/-- **A client that is finished goes**, and nothing names it then. -/
theorem destroy (h : Tidy alive ended s) {id c : Nat} (hl : (id, .death c) ∈ s.loop.live)
    (hf : Finished ended s c) : Tidy (fun d => alive d ∧ d ≠ c) ended
      { s with
        loop := s.loop.remove id
        clients := Function.update s.clients c none
        devices := s.devices.clearClientNotes c } := by
  have hc := h.sources id _ c hl rfl
  have hclear := h.clearDevices c
  constructor
  case clients =>
    intro d
    by_cases hd : d = c
    · simp [hd]
    · simp only [Function.update_of_ne hd]
      exact (h.clients d).trans (and_iff_left hd).symm
  case accepted =>
    intro d hx
    rcases hx with ⟨hd, -⟩ | hd
    · exact h.accepted d (.inl hd)
    · exact h.accepted d (.inr hd)
  case sources =>
    intro id' k d hrem hd
    obtain ⟨hmem, hne⟩ := (MainLoop.mem_remove ..).mp hrem
    refine ⟨h.sources id' k d hmem hd, ?_⟩
    intro hx
    obtain rfl := hx
    cases k with
    | new => cases hd
    | incoming =>
        cases hd
        exact (h.watched _ hc).mp ⟨id', hmem⟩ hf.ended
    | death =>
        cases hd
        exact hne (h.unique id' id _ rfl hmem hl)
    | timeout k =>
        cases hd
        exact hf.timeouts id' k hmem
  case watched =>
    intro d hx
    obtain ⟨hd, -⟩ := hx
    rw [← h.watched d hd]
    apply exists_congr
    intro id'
    rw [MainLoop.mem_remove, and_iff_left_iff_imp]
    intro hl' hcase
    obtain rfl := hcase
    cases MainLoop.kind_unique hl' hl
  case unique =>
    exact fun id' id'' k hw hl' hl'' => h.unique id' id'' k hw
      ((MainLoop.mem_remove ..).mp hl').1 ((MainLoop.mem_remove ..).mp hl'').1
  case timers =>
    intro d cl k hd
    have hdc : d ≠ c := by
      intro hx
      obtain rfl := hx
      simp at hd
    obtain ⟨hlt, hown⟩ := h.timers d cl k (by simpa [hdc] using hd)
    exact ⟨hlt, fun src hl' => hown src ((MainLoop.mem_remove ..).mp hl').1⟩
  case targets =>
    intro a t ht
    obtain ⟨hta, hflags, ha⟩ := hclear.targets a t ht
    refine ⟨⟨hta, ?_⟩, hflags, ha⟩
    rw [Devices.clearClientNotes_targets] at ht
    split at ht
    · exact ((Devices.mem_dropTarget (h.single a)).mp ht).2
    · rename_i hlow
      exact hf.notes a (by omega) t ht
  case single => exact hclear.single

/-! ## Callbacks -/

/-- Both timeouts of a poll. -/
theorem timedOut_lawful (h : Tidy alive ended s) {k : Poll} {id c : Nat}
    (hl : (id, .timeout k c) ∈ s.loop.live) : Lawful (Tidy alive ended) (s.timedOut k id c) := by
  refine h.client_lawful (h.sources id _ c hl rfl) fun cl hcl => lawful_ok ?_ _
  have hset : Tidy alive ended (s.setClient c (cl.setBox k { cl.box k with timer := 0 })) := by
    apply h.setClient_like hcl
    intro j
    rw [Client.setBox_box]
    by_cases hj : j = k
    · rw [if_pos hj]
      exact .inr rfl
    · rw [if_neg hj]
      exact .inl rfl
  have hown : ∀ src, (id, src) ∈ s.loop.live → src.isWatch = false := by
    intro src hsrc
    rw [MainLoop.kind_unique hsrc hl]
    rfl
  exact hset.remove hown

theorem timeout_lawful (P : Platform) (h : Tidy alive ended s) {k : Poll} {id c : Nat}
    (hl : (id, .timeout k c) ∈ s.loop.live) :
    Lawful (Tidy alive ended) (s.handle P (.timeout k id c)) := by
  have hout := h.timedOut_lawful hl
  cases k with
  | rx =>
      apply lawful_bind hout.safe
      intro p hp
      obtain ⟨t, out⟩ := p
      exact lawful_ok (hout.keeps t out hp) _
  | note => exact hout

/-- A request is read, or the end. -/
theorem clientIncoming_lawful (P : Platform) (h : Tidy alive ended s) {id c : Nat}
    (hl : (id, .incoming c) ∈ s.loop.live) (stale : BitVec 64) :
    Lawful (Tidy alive (ended ++ s.ends (.incoming id c stale)))
      (s.clientIncoming P id c stale) := by
  have hc := h.sources id _ c hl rfl
  cases hin : (s.sockets c).inbox with
  | nil =>
      have hends : s.ends (.incoming id c stale) = [c] := if_pos hin
      rw [hends, clientIncoming_end P hin]
      split
      · exact lawful_ok (h.eof hl) _
      · exact lawful_error (by simp)
  | cons cmd rest =>
      have hends : s.ends (.incoming id c stale) = [] := if_neg (by rw [hin]; simp)
      rw [hends, List.append_nil, clientIncoming_hear P hin]
      exact (h.setSocket c _).serve_lawful P hc stale _

/-- No callback touches a client that is gone. -/
theorem step_safe (P : Platform) (h : Tidy alive ended s) (ev : IpcEvent) :
    s.step P ev ≠ .error .badPointer := by
  have hlive : ∀ p, ev.source = some p → (p ∈ s.loop.live → s.handle P ev ≠ .error .badPointer) →
      s.step P ev ≠ .error .badPointer := by
    intro p hp hh
    rw [Ipc.step, hp]
    dsimp only
    split
    · rename_i hl
      exact hh hl
    · simp
  cases ev with
  | new id => exact hlive _ rfl fun _ => by simp [handle]
  | sent c bytes =>
      show (if _ then _ else _ : Result) ≠ _
      split <;> simp
  | closed c =>
      show (if _ then _ else _ : Result) ≠ _
      split <;> simp
  | incoming id c stale => exact hlive _ rfl fun hl => (h.clientIncoming_lawful P hl stale).safe
  | death id c =>
      apply hlive _ rfl
      intro hl
      show (if _ then _ else _ : Result) ≠ _
      split
      · rw [h.clientDeath_ok P (h.sources id _ c hl rfl)]
        simp
      · simp
  | timeout k id c => exact hlive _ rfl fun hl => (h.timeout_lawful P hl).safe

/-- **One callback**: a client goes only by its own watch, and when it is
finished the rest stays tidy. -/
theorem ipc_step {P : Platform} {s' : Ipc} {ev : IpcEvent} {out : List IpcOut}
    (h : Tidy alive ended s) (hs : s.step P ev = .ok (s', out))
    (hd : ∀ id c, ev = .death id c → Finished ended s c) :
    ∃ alive', Tidy alive' (ended ++ s.ends ev) s'
      ∧ ∀ c, alive c → alive' c ∨ ∃ id, ev = .death id c := by
  obtain ⟨hlive, hh⟩ := step_handle hs
  have hsame : s.ends ev = [] → Tidy alive ended s' →
      ∃ alive', Tidy alive' (ended ++ s.ends ev) s'
        ∧ ∀ c, alive c → alive' c ∨ ∃ id, ev = .death id c := by
    intro hends ht
    rw [hends, List.append_nil]
    exact ⟨alive, ht, fun _ => .inl⟩
  cases ev with
  | new id =>
      cases hh
      refine ⟨fun d => alive d ∨ d = s.accepted, ?_, fun c hc => .inl (.inl hc)⟩
      rw [show s.ends (.new id) = [] from rfl, List.append_nil]
      exact h.new
  | sent c bytes =>
      simp only [handle] at hh
      split at hh
      · cases hh
        exact hsame rfl (h.setSocket c _)
      · cases hh
  | closed c =>
      simp only [handle] at hh
      split at hh
      · cases hh
        exact hsame rfl (h.setSocket c _)
      · cases hh
  | incoming id c stale =>
      exact ⟨alive, (h.clientIncoming_lawful P (hlive _ rfl) stale).keeps s' out hh, fun _ => .inl⟩
  | death id c =>
      have hl := hlive _ rfl
      simp only [handle] at hh
      split at hh
      · rw [h.clientDeath_ok P (h.sources id _ c hl rfl)] at hh
        cases hh
        rw [show s.ends (.death id c) = [] from rfl, List.append_nil]
        refine ⟨fun d => alive d ∧ d ≠ c, h.destroy hl (hd id c rfl), ?_⟩
        intro d hdc
        by_cases hdc' : d = c
        · exact .inr ⟨id, by rw [hdc']⟩
        · exact .inl ⟨hdc, hdc'⟩
      · cases hh
  | timeout k id c =>
      exact hsame rfl ((h.timeout_lawful P (hlive _ rfl)).keeps s' out hh)

/-! ## What is received -/

theorem clientPush {s' : Ipc} {k : Poll} {c : Nat} {f : Frame} {out : List IpcOut}
    (h : Tidy alive ended s) (hr : s.clientPush k c f = .ok (s', out)) : Tidy alive ended s' := by
  obtain ⟨cl, cl', hc, ⟨-, hlike, rfl, -⟩ | ⟨-, h0, -, hother, rfl, -⟩⟩ :=
    Session.clientPush_cases hr
  · exact h.setClient_like hc fun j => .inl (hlike j).1
  · have htimer := (h.timers c cl k hc).2
    have hown : ∀ src, ((cl.box k).timer, src) ∈ s.loop.live → src.isWatch = false := by
      intro src hl
      rw [htimer src hl]
      rfl
    have hrem := h.remove hown
    apply hrem.setClient_like hc
    intro j
    by_cases hj : j = k
    · rw [hj]
      exact .inr h0
    · exact .inl (hother j hj).1

theorem pushNotes {s' : Ipc} {f : Frame} {cs : List Nat} {out : List IpcOut}
    (h : Tidy alive ended s) (hr : s.pushNotes f cs = .ok (s', out)) : Tidy alive ended s' := by
  induction cs generalizing s out with
  | nil =>
      cases hr
      exact h
  | cons c cs ih =>
      obtain ⟨⟨t, o⟩, ht, hr⟩ := bind_ok.mp hr
      obtain ⟨⟨u, os⟩, hu, hr⟩ := bind_ok.mp hr
      cases hr
      exact ih (h.clientPush ht) hu

theorem call {P : Platform} {s' : Ipc} {o : IfOut} {out : List IpcOut} (h : Tidy alive ended s)
    (hr : s.call P o = .ok (s', out)) : Tidy alive ended s' := by
  cases o with
  | wrote | free =>
      cases hr
      exact h
  | pushRx tag f =>
      cases tag with
      | client c => exact h.clientPush hr
      | null => cases hr
      | badEnum => cases hr
  | note f =>
      rw [Ipc.call, Ipc.dispatchNote] at hr
      split at hr
      · exact h.pushNotes hr
      · cases hr
  | deviceAdd i t =>
      cases hr
      exact h.devices h.targets h.single
  | listen =>
      cases hr
      apply h.add rfl
      intro d hd
      cases hd

theorem calls {P : Platform} {s' : Ipc} {os : List IfOut} {out : List IpcOut}
    (h : Tidy alive ended s) (hr : s.calls P os = .ok (s', out)) : Tidy alive ended s' := by
  induction os generalizing s out with
  | nil =>
      cases hr
      exact h
  | cons o os ih =>
      obtain ⟨⟨t, out₁⟩, ht, hr⟩ := bind_ok.mp hr
      obtain ⟨⟨u, out₂⟩, hu, hr⟩ := bind_ok.mp hr
      cases hr
      exact ih (h.call ht) hu

end Tidy

end Ipc

/-! ## The daemon -/

namespace SricIf

theorem Forgotten.calls {s : SricIf} {tag : Tag} {os : List IpcOut} (h : Forgotten tag s)
    (hnew : ∀ f, .push f ∈ os → f.tag ≠ tag) : Forgotten tag (s.calls os).1 := by
  induction os generalizing s with
  | nil => exact h
  | cons o os ih =>
      refine ih (s := (s.call o).1) ?_ fun f hf => hnew f (List.mem_cons_of_mem _ hf)
      cases o with
      | reply c r => exact h
      | push f =>
          refine h.effect (fun g hg => ?_) (s.txqPush_effect f 1)
          rw [List.mem_singleton.mp hg]
          exact hnew f List.mem_cons_self
      | cancel c =>
          refine h.effect (fun g hg => ?_) (s.txqCancel_effect _)
          cases hg

end SricIf

namespace Daemon

/-- What is known of the clients, and of their frames. -/
structure Orderly (ended : List Nat) (s : Daemon) : Prop where
  txInv : s.sricIf.TxInv
  tidy : s.ipc.Tidy s.ipc.Alive ended
  forgotten : ∀ c, ¬s.ipc.Alive c → s.sricIf.Forgotten (.client c)

theorem orderly_init : Orderly [] init where
  txInv := SricIf.txInv_init
  tidy := by
    constructor
    case clients => exact fun c => Iff.rfl
    case accepted => exact fun c hc => absurd rfl (hc.resolve_right List.not_mem_nil)
    case sources => exact fun id k c hl => by cases hl
    case watched => exact fun c hc => absurd rfl hc
    case unique => exact fun id id' k _ hl => by cases hl
    case timers => exact fun c cl k hc => by cases hc
    case targets => exact fun a t ht => by cases ht
    case single => exact fun a => List.nodup_nil
  forgotten c _ := by
    constructor
    · intro e he
      cases he
    · intro e he
      cases he

/-- The client whose end is read. -/
def ends (s : Daemon) : DaemonEvent → List Nat
  | .ipc ev => s.ipc.ends ev
  | .sricIf _ => []

/-- A client that is destroyed is finished. -/
def Dies (ended : List Nat) (s : Daemon) (ev : DaemonEvent) : Prop :=
  ∀ id c, ev = .ipc (.death id c) → s.ipc.Finished ended c

/-- **One event** in which no client is destroyed that is not finished. -/
theorem orderly_step {P : Platform} {s s' : Daemon} {ev : DaemonEvent} {out : List DaemonOut}
    {ended : List Nat} (h : Orderly ended s) (hs : step P s ev = .ok (s', out))
    (hd : Dies ended s ev) : Orderly (ended ++ s.ends ev) s' := by
  cases ev with
  | sricIf ev =>
      obtain ⟨os, ipc, outs, hcall, ht, hcalls, rfl, -⟩ := sricIf_ok hs
      have htidy := h.tidy.calls hcalls
      rw [show s.ends (.sricIf ev) = [] from rfl, List.append_nil]
      refine ⟨h.txInv.step ht, htidy.self, ?_⟩
      intro c hc
      refine (h.forgotten c fun hc' => hc ((htidy.clients c).mpr hc')).effect (fun f hf => ?_)
        (SricIf.step_effect h.txInv ht)
      rcases SricIf.pushes_tag hf with ⟨pri, rfl⟩ | hn | hb
      · cases hcall
      · rw [hn]
        simp
      · rw [hb]
        simp
  | ipc ev =>
      obtain ⟨os, hi, ht, -⟩ := ipc_ok hs
      obtain ⟨alive', htidy, halive⟩ :=
        h.tidy.ipc_step hi fun id c hev => hd id c (congrArg DaemonEvent.ipc hev)
      refine ⟨?_, htidy.self, ?_⟩
      · rw [ht]
        exact SricIf.calls_txInv h.txInv os
      · intro c hc
        rw [ht]
        by_cases hold : s.ipc.Alive c
        · -- it goes with its frames
          obtain ⟨id, rfl⟩ := (halive c hold).resolve_left fun hc' => hc ((htidy.clients c).mpr hc')
          have hh := (Ipc.step_handle hi).2
          simp only [Ipc.handle] at hh
          split at hh
          · rw [Ipc.deathOut hh]
            exact SricIf.forgotten_cancel (s.sricIf.txqCancel_effect (.client c))
          · cases hh
        · apply (h.forgotten c hold).calls
          intro f hf htag
          obtain ⟨-, id, d, stale, rfl, hd'⟩ := Ipc.step_queues hi hf
          cases htag.symm.trans hd'
          exact hold (h.tidy.sources id _ c ((Ipc.step_handle hi).1 _ rfl) rfl)

theorem noted_dies {P : Platform} {s : Daemon} {ended : List Nat} {evs : List DaemonEvent}
    (hd : ∀ pre id c post u o, evs = pre ++ .ipc (.death id c) :: post →
      run (step P) s pre = .ok (u, o) → u.ipc.Finished (ended ++ history (step P) ends s pre) c) :
    Noted (step P) ends Dies ended s evs := by
  intro pre ev post u o hevs hu id c hev
  obtain rfl := hev
  exact hd pre id c post u o hevs hu

theorem orderly_run {P : Platform} {s t : Daemon} {evs : List DaemonEvent} {out : List DaemonOut}
    {ended : List Nat} (h : Orderly ended s) (hr : run (step P) s evs = .ok (t, out))
    (hd : Noted (step P) ends Dies ended s evs) :
    Orderly (ended ++ history (step P) ends s evs) t :=
  run_noted (I := Orderly) (fun _ _ _ _ _ h hd hs => orderly_step h hs hd) h hd hr

/-! ## Out of reach -/

/-- The client has been destroyed. -/
def Destroyed (s : Daemon) (c : Nat) : Prop := c < s.ipc.accepted ∧ s.ipc.clients c = none

/-- No source is called back with a client that has been destroyed, and no
callback touches one: neither one of `ipc.c`, nor with a response, nor with
a note. -/
structure OutOfReach (P : Platform) (s : Daemon) : Prop where
  sources : ∀ c, s.Destroyed c → ∀ id k, (id, k) ∈ s.ipc.loop.live → k.client ≠ some c
  requests : ∀ ev, s.ipc.step P ev ≠ .error .badPointer
  responses : ∀ c, s.Destroyed c → ∀ ev t os, s.sricIf.step ev = .ok (t, os) →
    .client c ∉ responses os
  notes : ∀ c, s.Destroyed c → ∀ ev t os f, s.sricIf.step ev = .ok (t, os) → .note f ∈ os →
    c ∉ s.ipc.devices.noteClients P f

theorem Orderly.outOfReach {s : Daemon} {ended : List Nat} (h : Orderly ended s) (P : Platform) :
    s.OutOfReach P where
  sources c hc id k hl hk := h.tidy.sources id k c hl hk hc.2
  requests ev := h.tidy.step_safe P ev
  responses c hc ev t os hs :=
    (h.forgotten c (not_not.mpr hc.2)).no_response (SricIf.step_effect h.txInv hs)
  notes c hc ev t os f _ _ hmem := by
    obtain ⟨target, ht, rfl⟩ := List.mem_map.mp hmem
    exact (h.tidy.targets _ target (List.mem_filter.mp ht).1).1 hc.2

/-- Flags that are not 0 are those of some note. -/
theorem exists_note {flags : BitVec 64} (h : flags ≠ 0) (P : Platform) :
    ∃ n : Byte, flags &&& P.shl1 n.toNat ≠ 0 := by
  by_contra hno
  rw [not_exists] at hno
  refine h (BitVec.eq_of_getLsbD_eq fun i hi => ?_)
  have hbyte : (BitVec.ofNat 8 i).toNat = i := by
    rw [BitVec.toNat_ofNat]
    omega
  have hbit := congrArg (fun x => x.getLsbD i) (not_not.mp (hno (BitVec.ofNat 8 i)))
  simp only [hbyte, P.shl1_eq i hi] at hbit
  simpa [hi] using hbit

/-- A note of one of the first two addresses is passed on. -/
theorem note_step (s : SricIf) {a : Nat} (ha : a < 2) (n : Byte) :
    ∃ t f, s.step (.frame (frameBytes 1 (BitVec.ofNat 8 a) [n])) = .ok (t, [.note f])
      ∧ f.sourceAddress.toNat = a ∧ f.note = n := by
  have hbytes : PackedFrame.ofBytes (frameBytes 1 (BitVec.ofNat 8 a) [n])
      = ⟨1, BitVec.ofNat 8 a, [n]⟩ := rfl
  have hme : (PackedFrame.mk 1 (BitVec.ofNat 8 a) [n]).forMe = true :=
    show ((1 : Byte) &&& 0x7F == 1) = true by decide
  have hack : (PackedFrame.mk 1 (BitVec.ofNat 8 a) [n]).isAck = false :=
    show ((1 : Byte) &&& 0x80 != 0) = false by decide
  refine ⟨s.txqPush (SricIf.ackFor ⟨1, BitVec.ofNat 8 a, [n]⟩) 0,
    SricIf.frameOf ⟨1, BitVec.ofNat 8 a, [n]⟩ n, ?_, ?_, rfl⟩
  · show s.procRxFrame _ = _
    rw [SricIf.procRxFrame, hbytes]
    dsimp only
    rw [if_neg (by rw [hme]; simp), if_pos hack]
  · show (BitVec.ofNat 8 a &&& 0x7F).toNat = a
    have : a = 0 ∨ a = 1 := by omega
    rcases this with rfl | rfl <;> decide

/-- A client that is destroyed before it is finished stays within reach. -/
theorem Orderly.reached {P : Platform} {s s' : Daemon} {id c : Nat} {out : List DaemonOut}
    {ended : List Nat} (h : Orderly ended s)
    (hs : step P s (.ipc (.death id c)) = .ok (s', out)) (hr : s'.OutOfReach P) :
    s.ipc.Finished ended c := by
  obtain ⟨os, hi, -, -⟩ := ipc_ok hs
  obtain ⟨hlive, hh⟩ := Ipc.step_handle hi
  have hl := hlive _ rfl
  have hc := h.tidy.sources id _ c hl rfl
  simp only [Ipc.handle] at hh
  split at hh
  case isFalse => cases hh
  rw [h.tidy.clientDeath_ok P hc] at hh
  obtain ⟨hipc, -⟩ := Prod.mk.inj (Except.ok.inj hh)
  have hgone : s'.Destroyed c := by
    rw [Destroyed, ← hipc]
    exact ⟨h.tidy.accepted c (.inl hc), Function.update_self ..⟩
  have hleft : ∀ id' k, (id', k) ∈ s.ipc.loop.live → k ≠ .death c → k.client ≠ some c := by
    intro id' k hl' hk
    apply hr.sources c hgone id' k
    rw [← hipc]
    exact (MainLoop.mem_remove ..).mpr ⟨hl', MainLoop.id_ne_of_kind hl' hl hk⟩
  constructor
  case ended =>
    by_contra hne
    obtain ⟨id', hl'⟩ := (h.tidy.watched c hc).mpr hne
    exact hleft id' _ hl' (by simp) rfl
  case timeouts => exact fun id' k hl' => hleft id' _ hl' (by simp) rfl
  case notes =>
    intro a ha t ht hx
    obtain rfl := hx
    obtain ⟨n, hn⟩ := exists_note (h.tidy.targets a t ht).2.1 P
    obtain ⟨u, f, hstep, hsource, hnote⟩ := note_step s'.sricIf ha n
    apply hr.notes t.c hgone _ u _ f hstep List.mem_cons_self
    refine List.mem_map.mpr ⟨t, List.mem_filter.mpr ⟨?_, by rw [hnote]; simpa using hn⟩, rfl⟩
    rw [hsource, ← hipc]
    show t ∈ (s.ipc.devices.clearClientNotes t.c).targets a
    rw [Devices.clearClientNotes_targets, if_neg (by omega)]
    exact ht

/-- **No source outlives its client**, and nothing touches a client that has
been destroyed, in any state of a run: exactly when at each hang-up the
watch for input has read the end of what the client has sent, no timeout of
its polls is registered, and it has set no flags for the addresses 0
and 1. -/
theorem clients_outlived_iff {P : Platform} {evs : List DaemonEvent} {s : Daemon}
    {os : List DaemonOut} (hr : run (step P) init evs = .ok (s, os)) :
    (∀ pre post u o, evs = pre ++ post → run (step P) init pre = .ok (u, o) → u.OutOfReach P)
      ↔ ∀ pre id c post u o, evs = pre ++ .ipc (.death id c) :: post →
        run (step P) init pre = .ok (u, o) → u.ipc.Finished (history (step P) ends init pre) c := by
  have horderly : ∀ {pre post u o}, evs = pre ++ post →
      (∀ pre' id c post' u' o', pre = pre' ++ .ipc (.death id c) :: post' →
        run (step P) init pre' = .ok (u', o') →
          u'.ipc.Finished (history (step P) ends init pre') c) →
      run (step P) init pre = .ok (u, o) → Orderly (history (step P) ends init pre) u := by
    intro pre post u o _ hd hu
    simpa using orderly_run orderly_init hu (noted_dies (by simpa using hd))
  constructor
  · intro h pre
    -- by induction on the length: what comes before is orderly
    induction hn : pre.length using Nat.strong_induction_on generalizing pre with
    | _ n ih =>
      intro id c post u o hevs hu
      have hord := horderly hevs (fun pre' id' c' post' u' o' hpre hu' =>
        ih pre'.length (by rw [← hn, hpre]; simp) pre' rfl id' c' (post' ++ .ipc (.death id c) :: post)
          u' o' (by rw [hevs, hpre]; simp) hu') hu
      subst hevs
      obtain ⟨w, p, hs⟩ := run_step_at hr hu
      exact hord.reached hs (h (pre ++ [.ipc (.death id c)]) post w (o ++ p) (by simp)
        (run_append_ok.mpr ⟨u, o, p, hu, run_single.mpr hs, rfl⟩))
  · intro hd pre post u o hevs hu
    refine (horderly hevs (fun pre' id c post' u' o' hpre hu' => ?_) hu).outOfReach P
    exact hd pre' id c (post' ++ post) u' o' (by rw [hevs, hpre]; simp) hu'

/-- The client of `connected` asks for note 5 of the device and waits a
second for it. Then it hangs up, and the daemon reads the end. -/
def hangUp : List DaemonEvent :=
  connected ++ [.ipc (.sent 0 (Request.noteFlags 2 32).bytes), .ipc (.incoming 2 0 0),
    .ipc (.sent 0 (Request.poll .note 1000).bytes), .ipc (.incoming 2 0 0),
    .ipc (.timeout .note 4 0), .ipc (.closed 0), .ipc (.incoming 2 0 0)]

/-- Then it is destroyed, and its flags with it. -/
theorem clients_outlived_iff_hang_up :
    ∃ v ov s os, run (step .x86) init hangUp = .ok (v, ov) ∧ v.ipc.devices.targets 2 = [⟨0, 32⟩]
      ∧ run (step .x86) init (hangUp ++ [.ipc (.death 3 0)]) = .ok (s, os)
      ∧ s.OutOfReach .x86 := by
  obtain ⟨⟨s, os⟩, hr, -⟩ := ok_of_any (r := run (step .x86) init (hangUp ++ [.ipc (.death 3 0)]))
    (p := fun _ => true) (by decide +kernel)
  obtain ⟨⟨v, ov⟩, hv, hp⟩ := ok_of_any (r := run (step .x86) init hangUp)
    (p := fun p => (p.1.ipc.loop.live.all fun q => q.2.isWatch || q.2 == .new)
      && (p.1.ipc.devices.targets 0).isEmpty && (p.1.ipc.devices.targets 1).isEmpty
      && decide (p.1.ipc.devices.targets 2 = [⟨0, 32⟩]))
    (by decide +kernel)
  simp only [Bool.and_eq_true, List.all_eq_true, List.isEmpty_iff, decide_eq_true_eq] at hp
  obtain ⟨⟨⟨hlive, h0⟩, h1⟩, h2⟩ := hp
  have hread : 0 ∈ history (step .x86) ends init hangUp := by decide +kernel
  have hnone : ∀ e ∈ hangUp, ¬∃ id c, e = DaemonEvent.ipc (.death id c) := by
    intro e he hdeath
    obtain ⟨id, c, rfl⟩ := hdeath
    simp [hangUp, connected, oneDevice, exchange] at he
  refine ⟨v, ov, s, os, hv, h2, hr, (clients_outlived_iff hr).mpr ?_ _ [] s os (by simp) hr⟩
  intro pre id c post u o hevs hu
  -- the client is destroyed in the last event only
  obtain ⟨rfl, heq⟩ := split_only hnone (fun _ he => absurd he List.not_mem_nil) ⟨id, c, rfl⟩ hevs
  cases heq
  cases hu.symm.trans hv
  refine ⟨hread, ?_, ?_⟩
  · intro id k hl
    cases hlive _ hl
  · intro a ha t ht
    have : a = 0 ∨ a = 1 := by omega
    rcases this with rfl | rfl
    · rw [h0] at ht
      cases ht
    · rw [h1] at ht
      cases ht

/-- A client polls with a timeout of a second, and closes its end at once:
both the watch for input and the timeout are left when it is destroyed. -/
theorem timeout_outlives_client :
    ∃ s os, run (step .x86) init (connected ++ [.ipc (.sent 0 [2, 0, 0, 3, 0xE8]),
        .ipc (.incoming 2 0 0), .ipc (.closed 0), .ipc (.death 3 0)]) = .ok (s, os)
      ∧ ¬s.OutOfReach .x86
      ∧ (2, .incoming 0) ∈ s.ipc.loop.live
      ∧ step .x86 s (.ipc (.timeout .rx 4 0)) = .error .badPointer := by
  obtain ⟨⟨s, os⟩, hr, hp⟩ := ok_of_any
    (r := run (step .x86) init (connected ++ [.ipc (.sent 0 [2, 0, 0, 3, 0xE8]),
      .ipc (.incoming 2 0 0), .ipc (.closed 0), .ipc (.death 3 0)]))
    (p := fun p => decide ((2, .incoming 0) ∈ p.1.ipc.loop.live)
      && match p.1.ipc.step .x86 (.timeout .rx 4 0) with
        | .error x => x == .badPointer
        | .ok _ => false) (by decide +kernel)
  rw [Bool.and_eq_true, decide_eq_true_iff] at hp
  have hstep : s.ipc.step .x86 (.timeout .rx 4 0) = .error .badPointer := by
    cases h : s.ipc.step .x86 (.timeout .rx 4 0) with
    | error x =>
        rw [h] at hp
        rw [beq_iff_eq.mp hp.2]
    | ok a =>
        rw [h] at hp
        cases hp.2
  refine ⟨s, os, hr, fun h => h.requests _ hstep, hp.1, ?_⟩
  rw [step, hstep]
  rfl

end Daemon

end Sricd
