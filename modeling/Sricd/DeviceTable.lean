import Mathlib.Data.List.Intervals
import Sricd.Addresses
import Sricd.Bounds
import Sricd.EnumLink
import Sricd.Registry

/-!
# Which devices are known

`device_exists` tells that there is no device by the type -1, which is kept
in a plain `char` beside the class bytes that come off the bus. A device of
class 0xFF is lost where `char` is signed, and where it is not every device
is known. The table knows the devices that were added exactly when neither
happens (`device_table_iff`).
-/

namespace Sricd

open Sricd.Lib

/-- The addresses that devices are given. -/
abbrev DeviceAddress : Type := { a : Nat // 2 ≤ a ∧ a < deviceHighAddress }

/-- A call that changes the types. -/
inductive TableCall where
  /-- `device_reset` -/
  | reset
  /-- `device_add` -/
  | add (a : DeviceAddress) (type : Byte)
  /-- `device_del` -/
  | del (a : DeviceAddress)

/-- What a call makes of the type that was added for an address. -/
def TableCall.affect (a : Nat) (type : Option Byte) : TableCall → Option Byte
  | .reset => none
  | .add b t => if b = a then some t else type
  | .del b => if b = a then none else type

/-- The type in the last of the calls that affects an address, if that is a
`device_add`. -/
def installed (calls : List TableCall) (a : Nat) : Option Byte :=
  calls.foldl (TableCall.affect a) none

namespace Devices

/-- One call. -/
def call (d : Devices) : TableCall → Devices
  | .reset => .reset
  | .add a t => d.deviceAdd a t
  | .del a => d.deviceDel a

/-- The table after `device_reset` and these calls. -/
def after (calls : List TableCall) : Devices := calls.foldl call .reset

theorem reset_types {a : Nat} (ha : 2 ≤ a) : reset.types a = noDevice := by
  show (if a = 0 then _ else if a = 1 then _ else _) = _
  rw [if_neg (by omega), if_neg (by omega)]

/-- **One call** changes the type of the address that it is about. -/
theorem call_types (d : Devices) (c : TableCall) {a : Nat} (ha : 2 ≤ a) {type : Option Byte}
    (h : d.types a = type.getD noDevice) :
    (d.call c).types a = (c.affect a type).getD noDevice := by
  have hupdate : ∀ (b : DeviceAddress) (t : Byte), Function.update d.types b.val t a
      = (if b.val = a then some t else type).getD noDevice := by
    intro b t
    by_cases hb : b.val = a
    · rw [if_pos hb, ← hb, Function.update_self, Option.getD_some]
    · rw [if_neg hb, Function.update_of_ne (Ne.symm hb), h]
  cases c with
  | reset => exact reset_types ha
  | add b t => exact hupdate b t
  | del b =>
      refine (hupdate b noDevice).trans ?_
      rw [TableCall.affect]
      split <;> rfl

/-- The types of the first two addresses are never changed. -/
theorem call_low (d : Devices) (c : TableCall) {a : Nat} (ha : a < 2)
    (h : d.types a = reset.types a) : (d.call c).types a = reset.types a := by
  have hupdate : ∀ (b : DeviceAddress) (t : Byte),
      Function.update d.types b.val t a = reset.types a := by
    intro b t
    have hb := b.property.1
    rw [Function.update_of_ne (by omega), h]
  cases c with
  | reset => rfl
  | add b t => exact hupdate b t
  | del b => exact hupdate b noDevice

/-- **The types after a run of calls.** -/
theorem after_types (calls : List TableCall) (a : Nat) :
    (after calls).types a
      = if a < 2 then reset.types a else (installed calls a).getD noDevice := by
  suffices h : ∀ (d : Devices) (type : Option Byte),
      d.types a = (if a < 2 then reset.types a else type.getD noDevice) →
      (calls.foldl call d).types a
        = if a < 2 then reset.types a
          else (calls.foldl (TableCall.affect a) type).getD noDevice by
    apply h
    rw [Option.getD_none]
    split
    · rfl
    · exact reset_types (by omega)
  induction calls with
  | nil => exact fun d type h => h
  | cons c calls ih =>
      intro d type h
      refine ih (d.call c) (c.affect a type) ?_
      by_cases ha : a < 2
      · rw [if_pos ha] at h ⊢
        exact call_low d c ha h
      · rw [if_neg ha] at h ⊢
        exact call_types d c (by omega) h

/-- The first two addresses are always known. -/
theorem known_low {P : Platform} {d : Devices} {a : Nat} (ha : a < 2)
    (h : d.types a = reset.types a) : d.known P a = true := by
  rw [known, h, reset]
  have hcases : a = 0 ∨ a = 1 := by omega
  rcases hcases with rfl | rfl
  · cases P.charSigned <;> rfl
  · cases P.charSigned <;> rfl

/-- A type can be told from none where `char` is signed and the type is not
-1, and none is known to be none where `char` is signed. -/
theorem known_getD {P : Platform} {d : Devices} {a : Nat} {type : Option Byte}
    (h : d.types a = type.getD noDevice) :
    (d.known P a = true ↔ type.isSome = true)
      ↔ if P.charSigned then type ≠ some noDevice else type ≠ none := by
  rw [known, h]
  cases hP : P.charSigned with
  | true =>
      cases type with
      | none => simp
      | some t => simp
  | false => cases type <;> simp

/-- The table knows the devices that were added, and no others. -/
def KnowsAdded (P : Platform) (calls : List TableCall) : Prop :=
  ∀ a, a < deviceHighAddress →
    ((after calls).known P a = true ↔ a < 2 ∨ (installed calls a).isSome = true)

/-- Where `char` is signed, no device that is in the table is of class
0xFF; where it is unsigned, there is a device for every address. -/
def Told (P : Platform) (types : Nat → Option Byte) : Prop :=
  ∀ a, a < deviceHighAddress → 2 ≤ a →
    if P.charSigned then types a ≠ some noDevice else types a ≠ none

instance (P : Platform) (types : Nat → Option Byte) : Decidable (Told P types) :=
  inferInstanceAs (Decidable (∀ a, a < deviceHighAddress → _ → ite _ _ _))

theorem known_iff_told {P : Platform} {d : Devices} {types : Nat → Option Byte}
    (hlow : ∀ a, a < 2 → d.types a = reset.types a)
    (h : ∀ a, 2 ≤ a → d.types a = (types a).getD noDevice) :
    (∀ a, a < deviceHighAddress → (d.known P a = true ↔ a < 2 ∨ (types a).isSome = true))
      ↔ Told P types := by
  refine forall_congr' fun a => forall_congr' fun _ => ?_
  by_cases ha : a < 2
  · exact iff_of_true (iff_of_true (known_low ha (hlow a ha)) (.inl ha))
      fun h2 => absurd ha (Nat.not_lt.mpr h2)
  · rw [or_iff_right ha, known_getD (h a (Nat.not_lt.mp ha))]
    exact ⟨fun h _ => h, fun h => h (Nat.not_lt.mp ha)⟩

/-! ## What leaves the types alone -/

theorem setClientNotes_types (d : Devices) (a c : Nat) (notes : BitVec 64) :
    (d.setClientNotes a c notes).types = d.types := by
  rw [setClientNotes]
  split <;> rfl

theorem clearClientNotes_types (d : Devices) (c : Nat) : (d.clearClientNotes c).types = d.types := by
  rw [clearClientNotes]
  generalize List.range' 2 (deviceHighAddress - 2) = is
  induction is generalizing d with
  | nil => rfl
  | cons i is ih => exact (ih _).trans (setClientNotes_types ..)

/-- These calls of `device_add`. -/
def addAll (d : Devices) (adds : List (Nat × Byte)) : Devices :=
  adds.foldl (fun d p => d.deviceAdd p.1 p.2) d

theorem addAll_range (d : Devices) (types : Nat → Byte) (first n a : Nat) :
    (d.addAll ((List.range' first n).map fun i => (i, types i))).types a
      = if first ≤ a ∧ a < first + n then types a else d.types a := by
  induction n generalizing d first with
  | zero =>
      rw [if_neg (by omega)]
      rfl
  | succ n ih =>
      rw [List.range'_succ, List.map_cons, addAll, List.foldl_cons, ← addAll, ih]
      show (if _ then _ else Function.update d.types first (types first) a) = _
      rw [Function.update_apply]
      by_cases ha : a = first
      · rw [if_neg (by omega), if_pos ha, if_pos (by omega), ha]
      · rw [if_neg ha]
        exact if_congr (by omega) rfl rfl

end Devices

/-- The calls of `device_add` among what leaves the serial interface. -/
def IfOut.adds : IfOut → Option (Nat × Byte)
  | .deviceAdd a t => some (a, t)
  | _ => none

/-- Those that the enumeration asks for. -/
def EnumAction.adds : EnumAction → Option (Nat × Byte)
  | .deviceAdd a t => some (a, t)
  | _ => none

/-! ## The clients -/

namespace Ipc

section
variable {P : Platform} {s t : Ipc} {out : List IpcOut}

theorem serve_types {q : Request} {c : Nat} (h : q.serve P s c = .ok (t, out)) :
    t.devices.types = s.devices.types := by
  cases q with
  | tx address payload hlt =>
      rw [Request.serve] at h
      split at h
      · obtain ⟨rfl, -⟩ := Session.transmit_outcome h
        rfl
      · cases h
  | poll k timeout =>
      obtain ⟨cl, -, ⟨f, q, -, -, rfl⟩ | ⟨-, -, rfl⟩ | ⟨-, -, l, timer, rfl⟩⟩ := poll_cases h <;> rfl
  | noteFlags device flags =>
      rcases setFlags_ok h with ⟨-, hset, -⟩ | ⟨-, rfl, -⟩
      · rw [(setClientNotes_ok hset).2.2, Devices.setClientNotes_types]
      · rfl
  | noteClear =>
      obtain ⟨u, hu, h⟩ := bind_ok.mp h
      cases h
      obtain ⟨cl, -, hu⟩ := bind_ok.mp hu
      cases hu
      exact s.devices.clearClientNotes_types c
  | listDevices =>
      cases h
      rfl

theorem heard_types {heard : Heard} {c : Nat} {stale : BitVec 64}
    (h : heard.serve P s c stale = .ok (t, out)) : t.devices.types = s.devices.types := by
  cases heard with
  | nothing => cases h
  | overflow => cases h
  | malformed =>
      cases h
      rfl
  | request q => exact serve_types h
  | cutFlags device =>
      obtain ⟨⟨u, o⟩, hu, h⟩ := bind_ok.mp h
      cases h
      exact serve_types (q := .noteFlags device stale) hu

theorem clientIncoming_types {id c : Nat} {stale : BitVec 64}
    (h : s.clientIncoming P id c stale = .ok (t, out)) : t.devices.types = s.devices.types := by
  cases hin : (s.sockets c).inbox with
  | nil =>
      rw [clientIncoming_end P hin] at h
      split at h
      · cases h
        rfl
      · cases h
  | cons cmd inbox =>
      rw [clientIncoming_hear P hin] at h
      exact heard_types (s := s.setSocket c _) h

/-- **No request changes the types**, and no other event of a client. -/
theorem step_types {ev : IpcEvent} (h : s.step P ev = .ok (t, out)) :
    t.devices.types = s.devices.types := by
  have hh := (step_handle h).2
  have htimed : ∀ {k : Poll} {id c : Nat} {u : Ipc} {o : List IpcOut},
      s.timedOut k id c = .ok (u, o) → u.devices.types = s.devices.types := by
    intro k id c u o hu
    obtain ⟨cl, -, hu⟩ := bind_ok.mp hu
    cases hu
    rfl
  cases ev with
  | new id =>
      cases hh
      rfl
  | sent c bytes =>
      simp only [handle] at hh
      split at hh
      · cases hh
        rfl
      · cases hh
  | closed c =>
      simp only [handle] at hh
      split at hh
      · cases hh
        rfl
      · cases hh
  | incoming id c stale => exact clientIncoming_types hh
  | death id c =>
      simp only [handle] at hh
      split at hh
      · obtain ⟨⟨u, o⟩, hu, hh⟩ := bind_ok.mp hh
        cases hh
        show u.devices.types = _
        rw [(clientDestroy_ok hu).2.2.2, Devices.clearClientNotes_types]
      · cases hh
  | timeout k id c =>
      cases k with
      | rx =>
          obtain ⟨⟨u, o⟩, hu, hh⟩ := bind_ok.mp hh
          cases hh
          exact htimed hu
      | note => exact htimed hh

theorem call_types {o : IfOut} (h : s.call P o = .ok (t, out)) :
    t.devices.types = (s.devices.addAll o.adds.toList).types := by
  cases o with
  | wrote | free | deviceAdd _ _ | listen =>
      cases h
      rfl
  | pushRx tag f =>
      cases tag with
      | client c => exact congrArg Devices.types (clientPush_devices h)
      | null => cases h
      | badEnum => cases h
  | note f =>
      rw [call, dispatchNote] at h
      split at h
      · exact congrArg Devices.types (pushNotes_devices h)
      · cases h

/-- What the serial interface asks for changes the types by its calls of
`device_add`. -/
theorem calls_types {os : List IfOut} (h : s.calls P os = .ok (t, out)) (a : Nat) :
    t.devices.types a = (s.devices.addAll (os.filterMap IfOut.adds)).types a := by
  have hcongr : ∀ (adds : List (Nat × Byte)) (d d' : Devices), d.types = d'.types →
      (d.addAll adds).types = (d'.addAll adds).types := by
    intro adds
    induction adds with
    | nil => exact fun _ _ h => h
    | cons p adds ih =>
        intro d d' hd
        apply ih
        show Function.update d.types p.1 p.2 = Function.update d'.types p.1 p.2
        rw [hd]
  induction os generalizing s out with
  | nil =>
      cases h
      rfl
  | cons o os ih =>
      obtain ⟨⟨u, o₁⟩, hu, h⟩ := bind_ok.mp h
      obtain ⟨⟨v, o₂⟩, hv, h⟩ := bind_ok.mp h
      cases h
      rw [ih hv, hcongr _ _ _ (call_types hu), Devices.addAll, Devices.addAll, Devices.addAll,
        ← List.foldl_append]
      cases ho : o.adds with
      | none => rw [List.filterMap_cons_none ho]; rfl
      | some p => rw [List.filterMap_cons_some ho]; rfl

end

end Ipc

/-! ## Enumeration -/

namespace Enum

/-- The types that enumeration has installed. -/
def types (e : Enum) (a : Nat) : Option Byte :=
  if e.state = .enumerated ∧ a < e.currentNextAddress then some (e.deviceClasses a) else none

theorem types_going {e : Enum} (h : e.state ≠ .enumerated) (a : Nat) : e.types a = none :=
  if_neg fun hx => h hx.1

/-- **What a move of the state machine installs**: nothing, or the classes
of all devices that have an address. -/
theorem Move.types {e e' : Enum} {ev : EnumEvent} {as : List EnumAction} (h : Move e ev e' as) :
    ((∀ a, e'.types a = e.types a) ∧ as.filterMap EnumAction.adds = [])
      ∨ (e.state ≠ .enumerated
        ∧ (∀ a, e'.types a = if a < e.currentNextAddress then some (e.deviceClasses a) else none)
        ∧ as.filterMap EnumAction.adds
          = (List.range' 2 (e.currentNextAddress - 2)).map fun i => (i, e.deviceClasses i)) := by
  have hnone : ∀ {e e' : Enum}, e.state ≠ .enumerated → e'.state ≠ .enumerated →
      ∀ a, e'.types a = e.types a :=
    fun he he' a => (types_going he' a).trans (types_going he a).symm
  cases h with
  | stay => exact .inl ⟨fun _ => rfl, rfl⟩
  | classesFetched hs hc =>
      refine .inr ⟨by simp [hs], ?_, ?_⟩
      · intro a
        simp [Enum.types]
      · rw [List.filterMap_map, ← List.filterMap_eq_map]
        rfl
  | fetchNext hs hc => exact .inl ⟨hnone (by simp [hs]) (by simp [hs]), rfl⟩
  | start hs | tokenCaught hs | busReset hs | devPresent hs _ | tokAtGw hs _ | gwAddrSet hs
  | addrSet hs | advanced hs => exact .inl ⟨hnone (by simp [hs]) (by simp), rfl⟩

/-- **An input keeps the table in step with the enumeration.** -/
theorem step_types {e e' : Enum} {i : EnumInput} {as : List EnumAction}
    (h : e.step i = .ok (e', as)) {d : Devices}
    (hd : ∀ a, 2 ≤ a → d.types a = (e.types a).getD noDevice) :
    ∀ a, 2 ≤ a → (d.addAll (as.filterMap EnumAction.adds)).types a
      = (e'.types a).getD noDevice := by
  have hmove : ∀ (e₁ : Enum) {ev : EnumEvent}, (∀ a, e₁.types a = e.types a) →
      Move e₁ ev e' as → ∀ a, 2 ≤ a → (d.addAll (as.filterMap EnumAction.adds)).types a
        = (e'.types a).getD noDevice := by
    intro e₁ ev he hm a ha
    rcases hm.types with ⟨htypes, hadds⟩ | ⟨hgoing, htypes, hadds⟩
    · rw [hadds, htypes, he]
      exact hd a ha
    · rw [hadds, Devices.addAll_range, htypes]
      by_cases hlt : a < e₁.currentNextAddress
      · rw [if_pos hlt, if_pos (by omega), Option.getD_some]
      · rw [if_neg hlt, if_neg (by omega), hd a ha, ← he, types_going hgoing]
  rcases step_cases h with ⟨f, -, -, hs, hm⟩ | ⟨-, rc, ⟨rfl, has⟩ | ⟨ev, -, hm⟩⟩
  · have hgoing : ∀ {e : Enum}, e.state = .fetchingClasses → e.state ≠ .enumerated :=
      fun hs hx => by cases hs.symm.trans hx
    have hrecord : (e.record f).state = .fetchingClasses := hs
    exact hmove _ (fun a => (types_going (hgoing hrecord) a).trans
      (types_going (hgoing hs) a).symm) hm
  · rcases has with rfl | rfl <;> exact hd
  · exact hmove { e with resetCount := rc } (fun _ => rfl) hm

theorem types_init (a : Nat) : init.types a = none := types_going (by simp [init]) a

end Enum

namespace SricIf

theorem acts_adds (s : SricIf) (as : List EnumAction) :
    (s.acts as).2.filterMap IfOut.adds = as.filterMap EnumAction.adds := by
  induction as generalizing s with
  | nil => rfl
  | cons a as ih =>
      show ((s.act a).2 ++ ((s.act a).1.acts as).2).filterMap IfOut.adds = _
      rw [List.filterMap_append, ih]
      cases a <;> rfl

/-- The enumeration takes an input. -/
def Takes (s s' : SricIf) (out : List IfOut) : Prop :=
  ∃ i as, s.enum.step i = .ok (s'.enum, as)
    ∧ out.filterMap IfOut.adds = as.filterMap EnumAction.adds

theorem enumStep_takes {s s' : SricIf} {r : Option (Enum × List EnumAction)} {out : List IfOut}
    (h : s.enumStep r = .ok (s', out)) {i : EnumInput} (hi : s.enum.step i = Enum.ofOption r) :
    s.Takes s' out := by
  cases r with
  | none => cases h
  | some p =>
      obtain ⟨rfl, rfl⟩ := Prod.mk.inj (Except.ok.inj h)
      refine ⟨i, p.2, ?_, acts_adds _ _⟩
      rw [hi, (acts_same { s with enum := p.1 } p.2).1]
      rfl

theorem retire_takes {s s' : SricIf} {e : TxEntry} {p : PackedFrame} {out : List IfOut}
    (hi : TxInv s) (hf : s.txFrame = some e) (h : s.retire e p = .ok (s', out)) :
    (s'.enum = s.enum ∧ out.filterMap IfOut.adds = []) ∨ s.Takes s' out := by
  have hacked := (acked_aside hi.toTxCore).enum
  rcases retire_cases hf h with ⟨-, rfl, rfl⟩ | ⟨-, -, rfl, rfl⟩ | ⟨enum, as, more, -, -, hrx, rfl, rfl⟩
  · exact .inl ⟨hacked, rfl⟩
  · exact .inl ⟨hacked, rfl⟩
  · refine .inr ⟨.rx p, as, ?_, ?_⟩
    · show Enum.ofOption ((s.enum.rx p).map _) = .ok (_, as)
      rw [hrx, (acts_same { s.acked with enum := enum } as).1]
      rfl
    · rw [List.filterMap_append, List.filterMap_append, acts_adds]
      cases more <;> simp [IfOut.adds]

/-- **What a step does to the enumeration**: nothing, or one input, with
the calls of `device_add` that it asks for. -/
theorem step_takes {s s' : SricIf} {ev : IfEvent} {out : List IfOut} (hi : TxInv s)
    (hs : s.step ev = .ok (s', out)) :
    (s'.enum = s.enum ∧ out.filterMap IfOut.adds = []) ∨ s.Takes s' out := by
  obtain ⟨hlive, hh⟩ := step_handle hs
  cases ev with
  | enumStart => exact .inr (enumStep_takes hh (i := .start) rfl)
  | push f pri =>
      cases hh
      exact .inl ⟨(txqPush_aside s f pri).enum, rfl⟩
  | cancel tag =>
      obtain rfl : _ = s' := congrArg Prod.fst (Except.ok.inj hh)
      obtain rfl : (s.txqCancel tag).2 = out := congrArg Prod.snd (Except.ok.inj hh)
      refine .inl ⟨by rw [txqCancel_rest], ?_⟩
      rw [txqCancel, List.filterMap_map]
      exact List.filterMap_eq_nil_iff.mpr fun _ _ => rfl
  | ifTx id w =>
      refine .inl ⟨(write_cases hi hs).1.enum, ?_⟩
      simp only [handle] at hh
      split at hh
      · cases hh
      rename_i hx
      cases hh
      rcases ifTx_cases hi.toTxCore hx with ⟨-, -, rfl, -⟩ | ⟨t, e, n, -, -, -, rfl⟩ <;> rfl
  | txTimeout id =>
      obtain rfl : _ = s' := congrArg Prod.fst (Except.ok.inj hh)
      obtain rfl : s.txTimeout.2 = out := congrArg Prod.snd (Except.ok.inj hh)
      refine .inl ⟨(txTimeout_aside (hlive _ rfl)).enum, ?_⟩
      rw [txTimeout]
      by_cases hc : s.frameCancelled = true
      · rw [if_pos hc, freeTxFrame]
        cases s.txFrame <;> rfl
      · rw [if_neg hc]
        rfl
  | killToken id =>
      obtain ⟨u, hu, rfl⟩ := killToken_cases hh
      have htakes : s.Takes u out := enumStep_takes hu (i := .killTokenTimeout) rfl
      exact .inr htakes
  | sendReset id =>
      obtain ⟨u, enum, as, again, hr, hu, rfl⟩ := sendReset_cases hh
      have htakes : s.Takes u out := by
        refine enumStep_takes hu (i := .sendResetTimeout) ?_
        rw [Enum.step, hr]
        rfl
      cases again
      · exact .inr htakes
      · exact .inr htakes
  | frame bytes =>
      rcases procRxFrame_cases hh with ⟨rfl, rfl⟩ | ⟨-, rfl, rfl | ⟨note, rfl⟩⟩ | ⟨e, hf, -, hret⟩
      · exact .inl ⟨rfl, rfl⟩
      · exact .inl ⟨(txqPush_aside s _ 0).enum, rfl⟩
      · exact .inl ⟨(txqPush_aside s _ 0).enum, rfl⟩
      · exact retire_takes hi hf hret

theorem calls_enum (s : SricIf) (os : List IpcOut) : (s.calls os).1.enum = s.enum := by
  induction os generalizing s with
  | nil => rfl
  | cons o os ih =>
      show ((s.call o).1.calls os).1.enum = _
      rw [ih]
      cases o with
      | reply c r => rfl
      | push f => exact (txqPush_aside s f 1).enum
      | cancel c =>
          show (s.txqCancel _).1.enum = _
          rw [txqCancel_rest]

end SricIf

namespace Daemon

/-- The table holds what enumeration has installed. -/
structure Installed (s : Daemon) : Prop where
  inv : Inv s
  counters : s.sricIf.enum.Counters
  low : ∀ a, a < 2 → s.ipc.devices.types a = Devices.reset.types a
  types : ∀ a, 2 ≤ a → s.ipc.devices.types a = (s.sricIf.enum.types a).getD noDevice

theorem installed_init : Installed init where
  inv := inv_init
  counters := Enum.counters_init
  low _ _ := rfl
  types a ha := by
    show Devices.reset.types a = (Enum.init.types a).getD noDevice
    rw [Devices.reset_types ha, Enum.types_init, Option.getD_none]

/-- What is installed lies above the first two addresses. -/
theorem takes_low {s s' : SricIf} {out : List IfOut} (h : s.Takes s' out) (d : Devices) {a : Nat}
    (ha : a < 2) : (d.addAll (out.filterMap IfOut.adds)).types a = d.types a := by
  obtain ⟨i, as, hi, hadds⟩ := h
  have hmove : ∀ {e e' : Enum} {ev : EnumEvent}, e.Move ev e' as →
      (d.addAll (as.filterMap EnumAction.adds)).types a = d.types a := by
    intro e e' ev hm
    rcases hm.types with ⟨-, hnone⟩ | ⟨-, -, hadds⟩
    · rw [hnone]
      rfl
    · rw [hadds, Devices.addAll_range, if_neg (by omega)]
  rw [hadds]
  rcases Enum.step_cases hi with ⟨f, -, -, -, hm⟩ | ⟨-, rc, ⟨-, has⟩ | ⟨ev, -, hm⟩⟩
  · exact hmove hm
  · rcases has with rfl | rfl <;> rfl
  · exact hmove hm

theorem Installed.step {P : Platform} {s s' : Daemon} {ev : DaemonEvent} {out : List DaemonOut}
    (h : Installed s) (hs : step P s ev = .ok (s', out)) : Installed s' := by
  have hinv := inv_step P s ev s' out h.inv hs
  cases ev with
  | sricIf ev =>
      obtain ⟨os, ipc, outs, -, ht, hcalls, rfl, -⟩ := sricIf_ok hs
      have htypes := Ipc.calls_types hcalls
      rcases SricIf.step_takes h.inv.txInv ht with ⟨henum, hadds⟩ | htakes
      · have hsame : ∀ a, s'.ipc.devices.types a = s.ipc.devices.types a := by
          intro a
          rw [htypes, hadds]
          rfl
        refine ⟨hinv, henum ▸ h.counters, ?_, ?_⟩
        · intro a ha
          rw [hsame, h.low a ha]
        · intro a ha
          rw [hsame, henum, h.types a ha]
      · have hlow : ∀ a, a < 2 → _ := fun a => takes_low htakes s.ipc.devices
        obtain ⟨i, as, hi, hadds⟩ := htakes
        refine ⟨hinv, h.counters.step hi, ?_, ?_⟩
        · intro a ha
          rw [htypes, hlow a ha, h.low a ha]
        · intro a ha
          rw [htypes, hadds]
          exact Enum.step_types hi h.types a ha
  | ipc ev =>
      obtain ⟨os, hi, ht, -⟩ := ipc_ok hs
      have henum : s'.sricIf.enum = s.sricIf.enum := by rw [ht, SricIf.calls_enum]
      have hsame := Ipc.step_types hi
      refine ⟨hinv, henum ▸ h.counters, ?_, ?_⟩
      · intro a ha
        rw [hsame, h.low a ha]
      · intro a ha
        rw [hsame, henum, h.types a ha]

theorem installed_run {P : Platform} {s : Daemon} {evs : List DaemonEvent} {os : List DaemonOut}
    (hr : run (Daemon.step P) Daemon.init evs = .ok (s, os)) : Installed s :=
  run_invariant (fun _ _ _ _ h hs => Installed.step h hs) installed_init hr

end Daemon

/-- The daemon knows the devices below `next`, and no others: frames to
them, and to no others, are queued, and they are what it lists. -/
structure Ipc.KnowsBelow (P : Platform) (s : Ipc) (next : Nat) : Prop where
  exists_iff : ∀ a, a < deviceHighAddress → (s.devices.known P a = true ↔ a < next)
  tx : ∀ c f, f.address < deviceHighAddress →
    s.transmit P c f = if f.address < next then .ok (s, [.push f, .reply c (.status eSuccess)])
      else .ok (s, [.reply c (.status eBadAddr)])
  listed : (knownDevices P s.devices).map Prod.fst = List.range next

theorem Ipc.knowsBelow_iff {P : Platform} {s : Ipc} {next : Nat} (hnext : next ≤ deviceHighAddress) :
    s.KnowsBelow P next
      ↔ ∀ a, a < deviceHighAddress → (s.devices.known P a = true ↔ a < next) := by
  constructor
  · exact KnowsBelow.exists_iff
  · intro h
    refine ⟨h, ?_, ?_⟩
    · intro c f hf
      by_cases hlt : f.address < next
      · rw [if_pos hlt]
        exact transmit_known hf ((h _ hf).mpr hlt) c
      · rw [if_neg hlt]
        exact transmit_absent hf (Bool.eq_false_iff.mpr fun hk => hlt ((h _ hf).mp hk)) c
    · rw [knownDevices, List.map_map]
      have hrange : (List.range deviceHighAddress).filter (s.devices.known P)
          = (List.range deviceHighAddress).filter fun a => a < next := by
        refine List.filter_congr fun a ha => ?_
        rw [Bool.eq_iff_iff, decide_eq_true_iff]
        exact h a (List.mem_range.mp ha)
      rw [hrange, ← List.Ico.zero_bot, List.Ico.filter_lt, Nat.min_eq_right hnext,
        List.Ico.zero_bot]
      exact List.map_id _

/-- **The device table knows exactly the devices that were added.** After
`device_reset` and any calls, `device_exists` holds of the first two
addresses and of those whose last call is a `device_add`, in exactly the
following cases: `char` is signed and no device in the table is of class
0xFF, or it is unsigned and the table is full. In particular, the daemon
knows the devices below the next address, and only those, when it is done
with enumeration: in exactly the same cases, of the classes that it has
recorded. -/
theorem device_table_iff (P : Platform) (calls : List TableCall) :
    (Devices.KnowsAdded P calls ↔ Devices.Told P (installed calls))
      ∧ ∀ evs s os, run (Daemon.step P) Daemon.init evs = .ok (s, os) →
        s.sricIf.enum.state = .enumerated →
        (s.ipc.KnowsBelow P s.sricIf.enum.currentNextAddress
          ↔ Devices.Told P s.sricIf.enum.types) := by
  constructor
  · apply Devices.known_iff_told
    · intro a ha
      rw [Devices.after_types, if_pos ha]
    · intro a ha
      rw [Devices.after_types, if_neg (by omega)]
  · intro evs s os hr hover
    have h := Daemon.installed_run hr
    obtain ⟨h2, hle, hnext⟩ := h.counters.bounds
    rw [Ipc.knowsBelow_iff hnext, ← Devices.known_iff_told h.low h.types]
    refine forall_congr' fun a => forall_congr' fun _ => iff_congr Iff.rfl ?_
    rw [Enum.types]
    by_cases ha : a < s.sricIf.enum.currentNextAddress
    · rw [if_pos ⟨hover, ha⟩]
      exact iff_of_true ha (.inr rfl)
    · rw [if_neg fun hx => ha hx.2]
      exact iff_of_false ha (by simp; omega)

/-- Two devices, one of which leaves. -/
def comeAndGo : List TableCall :=
  [.add ⟨2, by decide⟩ 7, .add ⟨3, by decide⟩ 1, .del ⟨3, by decide⟩]

/-- The calls, and the enumeration of a bus with one device. -/
theorem device_table_iff_come_and_go :
    Devices.KnowsAdded .x86 comeAndGo
      ∧ ∃ s os, run (Daemon.step .x86) Daemon.init Daemon.connected = .ok (s, os)
        ∧ s.ipc.KnowsBelow .x86 s.sricIf.enum.currentNextAddress := by
  have hrun : (run (Daemon.step .x86) Daemon.init Daemon.connected).toOption.any (fun p =>
      p.1.sricIf.enum.state == .enumerated
        && decide (Devices.Told .x86 p.1.sricIf.enum.types)) = true := by
    decide +kernel
  obtain ⟨⟨s, os⟩, hr, hs⟩ := ok_of_any hrun
  rw [Bool.and_eq_true, beq_iff_eq, decide_eq_true_iff] at hs
  have htable := device_table_iff .x86 comeAndGo
  exact ⟨htable.1.mpr (by decide), s, os, hr, (htable.2 _ s os hr hs.1).mpr hs.2⟩

/-- A platform on which `char` is unsigned. -/
def Platform.unsigned : Platform := { Platform.x86 with charSigned := false }

/-- A device of class 0xFF is not known where `char` is signed, and where
it is unsigned a device is known that nobody has added. -/
theorem device_table_class_ff :
    (Devices.after [.add ⟨2, by decide⟩ 0xFF]).known .x86 2 = false
      ∧ ¬Devices.KnowsAdded .x86 [.add ⟨2, by decide⟩ 0xFF]
      ∧ (Devices.after []).known .unsigned 2 = true
      ∧ ¬Devices.KnowsAdded .unsigned [] := by
  refine ⟨by decide, ?_, by decide, ?_⟩
  · intro h
    have hknown := (h 2 (by decide)).mpr (.inr (by decide))
    exact absurd hknown (by decide)
  · intro h
    have hnone := (h 2 (by decide)).mp (by decide)
    exact absurd hnone (by decide)

end Sricd
