import Sricd.NoteCache

/-!
# The list of devices

`sric_enumerate_devices` against the daemon: the reply to
`SRICD_LIST_DEVICES` is a count and as many entries, which `libsric` reads
into an array with a sentinel at its end. A walk through the array visits
the devices that the daemon knows (`enumerate_devices_lists`).
-/

namespace Sricd

open Sricd.Lib

/-! ## The calls -/

/-- `sric_device`. -/
structure SricDevice where
  address : BitVec 32
  type : BitVec 32
deriving DecidableEq, Repr

/-- What marks the end of the array. -/
def SricDevice.sentinel : SricDevice := ⟨0, -1⟩

/-- `struct _sric_context`, with the array of devices: a pointer into it is
an index. -/
structure Listing (κ : Type) extends Context κ where
  devices : Option (List SricDevice)

namespace Fd

variable {κ : Type} (F : Fd κ)

/-- `data = ntohs (data)` of a `short`, as an `int`. -/
def ntohsShort (data : List Byte) : BitVec 32 := ((ntohs data).truncate 16).signExtend 32

/-- The loop of `sric_refresh_devices`, and the sentinel. Where an entry
cannot be read there is no array. -/
def readDevices (ctx : Context κ) : Nat → Context κ × Option (List SricDevice)
  | 0 => (ctx, some [.sentinel])
  | count + 1 =>
      let (ctx, data, rv) := F.readData ctx 2
      if rv ≠ 0 then (ctx, none)
      else
        let address := ntohsShort data
        let (ctx, data, rv) := F.readData ctx 2
        if rv ≠ 0 then (ctx, none)
        else
          let (ctx, devices) := readDevices ctx count
          (ctx, devices.map fun ds => ⟨address, ntohsShort data⟩ :: ds)

/-- `sric_refresh_devices`. -/
def sricRefreshDevices (l : Listing κ) : Listing κ :=
  let (ctx, rv) := F.sendCommand l.toContext [5]
  if rv ≠ 0 then ⟨ctx, none⟩
  else
    let (ctx, deviceCount, rv) := F.readData ctx 2
    if rv ≠ 0 then ⟨ctx, none⟩
    else
      let (ctx, devices) := F.readDevices ctx (ntohs deviceCount).toNat
      ⟨ctx, devices⟩

/-- `sric_enumerate_devices`. Without an array, `&ctx->devices[0]` is
`NULL`. -/
def sricEnumerateDevices (l : Listing κ) : Option Nat → Except Halt (Listing κ × Option Nat)
  | none =>
      let l := F.sricRefreshDevices l
      .ok (l, l.devices.map fun _ => 0)
  | some device =>
      match l.devices with
      | none => .error .badPointer
      | some ds =>
          match ds[device + 1]? with
          | none => .error .outOfBounds
          | some d => .ok (l, if d.type = -1 then none else some (device + 1))

end Fd

namespace Listing

variable {κ : Type}

/-- What a pointer points to. -/
def device (l : Listing κ) (i : Nat) : Option SricDevice := l.devices.bind fun ds => ds[i]?

/-- Calls of `sric_enumerate_devices` from a pointer on, each with what the
one before returned, until one returns `NULL`: the devices that are visited,
and the context behind the last call. -/
inductive Iterates (F : Fd κ) : Listing κ → Option Nat → List SricDevice → Listing κ → Prop where
  | last {l l' : Listing κ} {p : Option Nat} (call : F.sricEnumerateDevices l p = .ok (l', none)) :
      Iterates F l p [] l'
  | next {l l' l'' : Listing κ} {p : Option Nat} {i : Nat} {d : SricDevice} {ds : List SricDevice}
      (call : F.sricEnumerateDevices l p = .ok (l', some i)) (visit : l'.device i = some d)
      (rest : Iterates F l' (some i) ds l'') : Iterates F l p (d :: ds) l''

/-- There is one way to go on. -/
theorem Iterates.unique {F : Fd κ} {l l₁ l₂ : Listing κ} {p : Option Nat}
    {ds₁ ds₂ : List SricDevice} (h₁ : Iterates F l p ds₁ l₁) (h₂ : Iterates F l p ds₂ l₂) :
    ds₁ = ds₂ ∧ l₁ = l₂ := by
  induction h₁ generalizing ds₂ with
  | last call =>
      cases h₂ with
      | last call' =>
          rw [call] at call'
          cases call'
          exact ⟨rfl, rfl⟩
      | next call' _ _ =>
          rw [call] at call'
          cases call'
  | next call visit _ ih =>
      cases h₂ with
      | last call' =>
          rw [call] at call'
          cases call'
      | next call' visit' rest' =>
          rw [call] at call'
          cases call'
          rw [visit] at visit'
          cases visit'
          obtain ⟨rfl, rfl⟩ := ih rest'
          exact ⟨rfl, rfl⟩

/-- A walk through the rest of the array. -/
theorem iterates_rest (F : Fd κ) {l : Listing κ} (ds : List SricDevice)
    (hds : ∀ d ∈ ds, d.type ≠ -1) (seen : List SricDevice) (d : SricDevice)
    (h : l.devices = some (seen ++ d :: (ds ++ [.sentinel]))) :
    Iterates F l (some seen.length) ds l := by
  induction ds generalizing seen d with
  | nil =>
      refine .last ?_
      rw [Fd.sricEnumerateDevices, h]
      simp [SricDevice.sentinel]
  | cons d' ds ih =>
      have hcall : F.sricEnumerateDevices l (some seen.length)
          = .ok (l, some (seen ++ [d]).length) := by
        rw [Fd.sricEnumerateDevices, h]
        simpa using hds d' List.mem_cons_self
      refine .next hcall ?_ (ih (fun e he => hds e (List.mem_cons_of_mem _ he)) (seen ++ [d]) d' ?_)
      · rw [device, h]
        simp
      · rw [h]
        simp

end Listing

/-! ## The reply -/

theorem ntohs_htons (x : BitVec 16) : ntohs (htons x) = x.zeroExtend 32 := by
  have hx : ((x >>> 8).truncate 8 ++ x.truncate 8 : BitVec 16) = x := by
    have hhi : ((x >>> 8).truncate 8 : Byte) = x.extractLsb' 8 8 := by
      apply BitVec.eq_of_getLsbD_eq
      intro i hi
      simp [hi]
    have hlo : (x.truncate 8 : Byte) = x.extractLsb' 0 8 := by
      apply BitVec.eq_of_getLsbD_eq
      intro i hi
      simp [hi]
    rw [hhi, hlo, append_bytes16]
  show ((x >>> 8).truncate 8 ++ x.truncate 8 : BitVec 16).zeroExtend 32 = _
  rw [hx]

theorem ntohsShort_htons (x : BitVec 16) : Fd.ntohsShort (htons x) = x.signExtend 32 := by
  rw [Fd.ntohsShort, ntohs_htons, BitVec.truncate, BitVec.zeroExtend,
    BitVec.setWidth_setWidth_of_le _ (by decide), BitVec.setWidth_eq]

/-- An entry of the reply. -/
def entryBytes (e : Nat × BitVec 16) : List Byte := htons (BitVec.ofNat 16 e.1) ++ htons e.2

/-- The entry, as it comes out of the reply. -/
def SricDevice.ofEntry (e : Nat × BitVec 16) : SricDevice :=
  ⟨(BitVec.ofNat 16 e.1).signExtend 32, e.2.signExtend 32⟩

/-- A `short` that the daemon has written is read. -/
theorem readData_htons {P : Platform} {id c : Nat} {stale : BitVec 64} {ctx : Context Served}
    {x : BitVec 16} {rest : List Byte} (h : ctx.fd.unread = htons x ++ rest) :
    (Served.fd P id c stale).readData ctx 2
      = ({ ctx with fd := ⟨ctx.fd.ipc, rest⟩ }, htons x, 0) := by
  rw [Fd.readData]
  dsimp only [Served.fd]
  rw [h]
  rfl

theorem readDevices_served {P : Platform} {id c : Nat} {stale : BitVec 64}
    (es : List (Nat × BitVec 16)) (rest : List Byte) (ctx : Context Served)
    (h : ctx.fd.unread = es.flatMap entryBytes ++ rest) :
    (Served.fd P id c stale).readDevices ctx es.length
      = ({ ctx with fd := ⟨ctx.fd.ipc, rest⟩ },
        some (es.map SricDevice.ofEntry ++ [.sentinel])) := by
  induction es generalizing ctx with
  | nil =>
      have hrest : ctx.fd = ⟨ctx.fd.ipc, rest⟩ := by
        rw [← show ctx.fd.unread = rest from h]
      show (ctx, _) = _
      rw [← hrest]
      rfl
  | cons e es ih =>
      have haddress : ctx.fd.unread
          = htons (BitVec.ofNat 16 e.1) ++ (htons e.2 ++ (es.flatMap entryBytes ++ rest)) := by
        rw [h, List.flatMap_cons, entryBytes]
        simp only [List.append_assoc]
      rw [List.length_cons, Fd.readDevices, readData_htons haddress]
      dsimp only
      have htype : (⟨ctx.fd.ipc, htons e.2 ++ (es.flatMap entryBytes ++ rest)⟩ : Served).unread
          = htons e.2 ++ (es.flatMap entryBytes ++ rest) := rfl
      rw [if_neg (not_not.mpr rfl), readData_htons htype]
      dsimp only
      rw [if_neg (not_not.mpr rfl), ih _ rfl, ntohsShort_htons, ntohsShort_htons]
      rfl

/-- **The reply is read as it was written.** -/
theorem sricRefreshDevices_served {P : Platform} {id c : Nat} (stale : BitVec 64)
    {l : Listing Served} (h : Connected l.fd.ipc id c) (hu : l.fd.unread = []) :
    (Served.fd P id c stale).sricRefreshDevices l
      = ⟨{ l.toContext with fd := ⟨l.fd.ipc, []⟩ },
        some ((Ipc.knownDevices P l.fd.ipc.devices).map SricDevice.ofEntry ++ [.sentinel])⟩ := by
  have hcount : (Ipc.knownDevices P l.fd.ipc.devices).length ≤ deviceHighAddress := by
    rw [Ipc.knownDevices, List.length_map]
    exact (List.length_filter_le _ _).trans List.length_range.le
  have h128 : deviceHighAddress = 128 := rfl
  have hlen : (ntohs (htons (BitVec.ofNat 16 (Ipc.knownDevices P l.fd.ipc.devices).length))).toNat
      = (Ipc.knownDevices P l.fd.ipc.devices).length := by
    rw [ntohs_htons, BitVec.zeroExtend, BitVec.toNat_setWidth, BitVec.toNat_ofNat]
    omega
  have hwrite : (Served.fd P id c stale).write l.fd [5]
      = (⟨l.fd.ipc, 0 :: (htons (BitVec.ofNat 16 (Ipc.knownDevices P l.fd.ipc.devices).length)
        ++ ((Ipc.knownDevices P l.fd.ipc.devices).flatMap entryBytes ++ []))⟩, 1) := by
    dsimp only [Served.fd]
    rw [show ([5] : List Byte) = Request.listDevices.bytes from rfl,
      h.run_request stale .listDevices rfl, hu]
    simp only [repliesTo, Reply.bytes, if_pos, List.nil_append, List.append_nil,
      List.cons_append]
    rfl
  have hsend : (Served.fd P id c stale).sendCommand l.toContext [5] = _ :=
    Fd.sendCommand_success _ hwrite rfl
  rw [Fd.sricRefreshDevices, hsend]
  dsimp only
  rw [if_neg (not_not.mpr rfl), readData_htons rfl]
  dsimp only
  rw [if_neg (not_not.mpr rfl), hlen, readDevices_served _ [] _ rfl]

/-! ## The round trip -/

/-- The devices that the daemon knows, by address, each with its type. -/
def listed (P : Platform) (d : Devices) : List SricDevice :=
  ((List.range deviceHighAddress).filter (d.known P)).map fun a =>
    ⟨BitVec.ofNat 32 a, (d.deviceType a).signExtend 32⟩

theorem signExtend_address {a : Nat} (h : a < deviceHighAddress) :
    (BitVec.ofNat 16 a).signExtend 32 = BitVec.ofNat 32 a := by
  have h128 : deviceHighAddress = 128 := rfl
  apply BitVec.eq_of_toNat_eq
  have hmsb : (BitVec.ofNat 16 a).msb = false := by
    rw [BitVec.msb_eq_false_iff_two_mul_lt, BitVec.toNat_ofNat]
    omega
  rw [BitVec.signExtend_eq_setWidth_of_msb_false hmsb, BitVec.toNat_setWidth, BitVec.toNat_ofNat,
    BitVec.toNat_ofNat]
  omega

theorem signExtend_type (t : Byte) : (t.signExtend 16).signExtend 32 = t.signExtend 32 := by
  apply BitVec.eq_of_toInt_eq
  rw [BitVec.toInt_signExtend_of_le (by decide), BitVec.toInt_signExtend_of_le (by decide),
    BitVec.toInt_signExtend_of_le (by decide)]

theorem entries_listed {P : Platform} (hP : P.charSigned = true) (d : Devices) :
    (Ipc.knownDevices P d).map SricDevice.ofEntry = listed P d := by
  rw [Ipc.knownDevices, listed, List.map_map]
  apply List.map_congr_left
  intro a ha
  have hlt := List.mem_range.mp (List.mem_filter.mp ha).1
  dsimp only [Function.comp_apply, SricDevice.ofEntry]
  rw [if_pos hP, signExtend_address hlt, signExtend_type]

/-- No device that is listed has the type of the sentinel. -/
theorem listed_type {P : Platform} (hP : P.charSigned = true) {d : Devices} {e : SricDevice}
    (he : e ∈ listed P d) : e.type ≠ -1 := by
  obtain ⟨a, ha, rfl⟩ := List.mem_map.mp he
  have hk := (List.mem_filter.mp ha).2
  intro ht
  have hint : (d.deviceType a).toInt = -1 := by
    rw [← BitVec.toInt_signExtend_of_le (v := 32) (by decide)]
    exact congrArg BitVec.toInt ht
  have hff : d.types a = noDevice := BitVec.eq_of_toInt_eq hint
  rw [Devices.known, hP, hff] at hk
  cases hk

/-- **The devices that a client goes through** are the ones that the daemon
knows, in order, each once and with its type, and nothing of the reply is
left. -/
theorem enumerate_devices_lists (P : Platform) (hP : P.charSigned = true) (stale : BitVec 64)
    {id c : Nat} (l : Listing Served) (h : Connected l.fd.ipc id c) (hu : l.fd.unread = [])
    (h0 : l.fd.ipc.devices.known P 0 = true) :
    ∃ l' : Listing Served, l'.fd = ⟨l.fd.ipc, []⟩ ∧ l'.error = l.error
      ∧ ∀ ds l'', Listing.Iterates (Served.fd P id c stale) l none ds l''
        ↔ ds = listed P l.fd.ipc.devices ∧ l'' = l' := by
  have hrefresh := sricRefreshDevices_served (P := P) stale h hu
  rw [entries_listed hP] at hrefresh
  have hne : listed P l.fd.ipc.devices ≠ [] := by
    intro hnil
    have hmem : 0 ∈ (List.range deviceHighAddress).filter (l.fd.ipc.devices.known P) :=
      List.mem_filter.mpr ⟨List.mem_range.mpr (by decide), h0⟩
    rw [List.map_eq_nil_iff.mp hnil] at hmem
    cases hmem
  obtain ⟨d, ds, hds⟩ := List.exists_cons_of_ne_nil hne
  have htypes : ∀ e ∈ ds, e.type ≠ -1 := by
    intro e he
    apply listed_type hP (d := l.fd.ipc.devices)
    rw [hds]
    exact List.mem_cons_of_mem _ he
  refine ⟨(Served.fd P id c stale).sricRefreshDevices l, ?_, ?_, ?_⟩
  · rw [hrefresh]
  · rw [hrefresh]
  have hwalk : Listing.Iterates (Served.fd P id c stale) l none (listed P l.fd.ipc.devices)
      ((Served.fd P id c stale).sricRefreshDevices l) := by
    rw [hds]
    refine .next (i := 0) ?_ ?_ (Listing.iterates_rest _ ds htypes [] d ?_)
    · rw [Fd.sricEnumerateDevices, hrefresh]
      rfl
    · rw [hrefresh, hds]
      rfl
    · rw [hrefresh, hds]
      rfl
  intro ds' l''
  constructor
  · intro hit
    exact hit.unique hwalk
  · intro hx
    obtain ⟨rfl, rfl⟩ := hx
    exact hwalk

/-- A table with a device of a negative type. -/
theorem enumerate_devices_lists_negative :
    ∃ l' : Listing Served, Listing.Iterates (Served.fd .x86 1 0 0)
      ⟨.init ⟨{ Ipc.init.new with devices := Devices.reset.deviceAdd 2 0x85 }, []⟩, none⟩ none
      [⟨0, -2⟩, ⟨1, 0⟩, ⟨2, -123⟩] l' := by
  obtain ⟨l', -, -, hit⟩ := enumerate_devices_lists .x86 rfl 0
    ⟨.init ⟨{ Ipc.init.new with devices := Devices.reset.deviceAdd 2 0x85 }, []⟩, none⟩
    (fresh_first (Devices.reset.deviceAdd 2 0x85) fun _ => rfl).toConnected rfl rfl
  exact ⟨l', (hit _ l').mpr ⟨by decide +kernel, rfl⟩⟩

end Sricd
