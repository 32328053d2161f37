import EasyGrocery.App.Devices
import EasyGrocery.Wire.Phones

/-! # The list pages, the price pages and the server

Everything at once: the list pages of any number of devices of any number of users, which write to
one database; visits to the price page on these devices, which read from it; and the server that
compares what they post.  A visit reads what its device holds at that moment, its own writes
included.

`system_show_iff`: what a visit compares is a replay of the user's own operations, on any of the
user's devices; as long as only lists are read that can be sent (`Sendable`), what it shows is what
that list costs iff none of its items is found in both stores. -/

namespace EasyGrocery.Wire

open Firebase Guarded
open Devices (AllReplayed)
open GroceryList (intended)
open Prices (requestBody)
open Replay (Of)
open Server (Env)

variable {κ ι : Type}

structure System (κ ι : Type) where
  devices : Devices.World κ
  net : Net ι

/-- No page has read anything, and no request has been made. -/
def System.opened (db : Database) : System κ ι := ⟨Devices.opened db, .opened fun _ => none⟩

/-- A step of a list page or the arrival of a write; a step of the price pages and the server. -/
inductive SystemEvent (κ ι : Type) where
  | list (e : κ × Devices.Event)
  | net (e : NetEvent ι)

namespace System

variable (user : κ → Uid) (device : ι → κ)

/-- What the device of the visit `i` holds for its user. -/
def readable (w : System κ ι) (i : ι) : Option Items :=
  (w.devices.component (device i)).view w.devices.memory (user (device i)).itemsRef

variable [DecidableEq κ] [DecidableEq ι] (toLowerCase : String → String) (numText : ℚ → String)

/-- The answer to `once` is what the device holds. -/
def netStep (w : System κ ι) : NetEvent ι → Option (Net ι)
  | .visit i .serve => run (Net.step toLowerCase numText) w.net
      [.visit i (.store (w.readable user device i)), .visit i .serve]
  -- lists are stored by the list pages
  | .visit _ (.store _) => none
  | e => w.net.step toLowerCase numText e

def step (w : System κ ι) : SystemEvent κ ι → Option (System κ ι)
  | .list e => (Owned.World.step (Devices.step user) w.devices e).map fun devices =>
      { w with devices := devices }
  | .net e => (w.netStep user device toLowerCase numText e).map fun net => { w with net := net }

end System

/-- The lists that visits read can be encoded, and callbacks of comparisons have the database's
answers, in time. -/
def SystemOrderly (env : Env Decimal) (user : κ → Uid) (device : ι → κ) (w : System κ ι) :
    SystemEvent κ ι → Prop
  | .list _ => True
  | .net (.visit i .serve) => Sendable (w.readable user device i)
  | .net e => Orderly env w.net e

/-- The operations on devices of `u`. -/
def SystemEvent.made (user : κ → Uid) (u : Uid) : SystemEvent κ ι → List GroceryList.Event
  | .list e => Devices.made user u e
  | .net _ => []

/-! ### One visit and its user -/

/-- The devices of `u` hold replays, and the visit `i` is right for one of the replays it has
found. -/
structure Backed (env : Env Decimal) (numText : ℚ → String) (user : κ → Uid) (u : Uid)
    (bases : Set (List String)) (i : ι) (log : List GroceryList.Event) (w : System κ ι) : Prop where
  devices : AllReplayed user u bases log w.devices
  kept : ∃ values, Kept env numText i values w.net ∧ ∀ v ∈ values, Of intended bases log (Items.toList v)

section system

variable {env : Env Decimal} {numText : ℚ → String} {user : κ → Uid} {device : ι → κ}
  {bases : Set (List String)} {log : List GroceryList.Event} {i : ι} {w w' : System κ ι}

/-- What a visit can read is a replay. -/
theorem replay_readable (hnil : [] ∈ bases) (h : AllReplayed user (user (device i)) bases log w.devices) :
    Of intended bases log (Items.toList (w.readable user device i)) :=
  Devices.replay_view hnil (h.uses (device i)).refs (h.device (device i) rfl).outbox h.stored

variable [DecidableEq ι]

/-- A visit reads what its device holds, or the step is one of the pages and the server alone. -/
theorem netStep_eq_some {toLowerCase : String → String} {e : NetEvent ι} {net : Net ι}
    (h : w.netStep user device toLowerCase numText e = some net) :
    (∃ i net', e = .visit i .serve ∧
      w.net.step toLowerCase numText (.visit i (.store (w.readable user device i))) = some net' ∧
      net'.step toLowerCase numText (.visit i .serve) = some net) ∨
    (∀ k, e.storedBy k = []) ∧ (∀ i, e ≠ .visit i .serve) ∧ w.net.step toLowerCase numText e = some net := by
  cases e with
  | visit i e =>
      cases e with
      | store value => cases h
      | serve =>
          obtain ⟨net', hstore, h⟩ := run_cons_eq_some.mp h
          obtain ⟨net'', hserve, h⟩ := run_cons_eq_some.mp h
          obtain rfl := Option.some.inj h
          exact .inl ⟨i, net', rfl, hstore, hserve⟩
      | _ => exact .inr ⟨fun k => by simp [NetEvent.storedBy, Prices.Event.stores], by simp, h⟩
  | _ => exact .inr ⟨fun k => rfl, by simp, h⟩

/-- A visit stays right for the replays it has found, and finds one more. -/
theorem kept_netStep (hdb : PlainRows env) (hnil : [] ∈ bases)
    (h : Backed env numText user (user (device i)) bases i log w)
    {e : NetEvent ι} (hin : SystemOrderly env user device w (.net e)) {net : Net ι}
    (hstep : w.netStep user device env.toLowerCase numText e = some net) :
    ∃ values, Kept env numText i values net ∧ ∀ v ∈ values, Of intended bases log (Items.toList v) := by
  obtain ⟨values, hkept, hof⟩ := h.kept
  rcases netStep_eq_some hstep with ⟨i', net', rfl, hstore, hserve⟩ | ⟨hnone, hne, hnet⟩
  · have hsendable : Orderly env w.net (.visit i' (.store (w.readable user device i'))) := hin
    have hkept' := kept_step hdb hkept hsendable hstore
    refine ⟨_, kept_step hdb hkept' (e := .visit i' .serve) trivial hserve, ?_⟩
    intro v hv
    by_cases hi : i' = i
    · subst hi
      have hv : v ∈ values ∨ v = w.readable user device i' := by
        simpa [NetEvent.storedBy, Prices.Event.stores] using hv
      rcases hv with hv | rfl
      · exact hof v hv
      · exact replay_readable hnil h.devices
    · have hv : v ∈ values := by simpa [NetEvent.storedBy, hi] using hv
      exact hof v hv
  · have hnow : Orderly env w.net e := by
      cases e with
      | visit i' e =>
          cases e with
          | serve => exact absurd rfl (hne i')
          | _ => exact hin
      | _ => exact hin
    have hkept' := kept_step hdb hkept hnow hnet
    rw [hnone, List.append_nil] at hkept'
    exact ⟨values, hkept', hof⟩

variable [DecidableEq κ]

theorem backed_step (hdb : PlainRows env) (hnil : [] ∈ bases)
    (h : Backed env numText user (user (device i)) bases i log w)
    {e : SystemEvent κ ι} (hin : SystemOrderly env user device w e)
    (hstep : w.step user device env.toLowerCase numText e = some w') :
    Backed env numText user (user (device i)) bases i (log ++ e.made user (user (device i))) w' := by
  cases e with
  | list e =>
      obtain ⟨devices, hdevices, rfl⟩ := Option.map_eq_some_iff.mp hstep
      obtain ⟨values, hkept, hof⟩ := h.kept
      exact ⟨Devices.allReplayed_step hnil h.devices hdevices, values, hkept,
        fun v hv => (hof v hv).append _⟩
  | net e =>
      obtain ⟨net, hnet, rfl⟩ := Option.map_eq_some_iff.mp hstep
      rw [SystemEvent.made, List.append_nil]
      exact ⟨h.devices, kept_netStep hdb hnil h hin hnet⟩

/-- **What the app shows, exactly.**  Over a database with plain names and prices in whole cents,
whose answers come in time, with nothing but `Sendable` lists read, and however the list pages of
all devices, the price pages and the server interleave: every visit to the price page has one list
that all its requests are made from, which is what was stored for its user at the start, or nothing,
with some of the operations since that were made on the user's devices, in their order; and every
answer it hands on is what that list costs iff none of its items is found in both stores. -/
theorem system_show_iff (hdb : PlainRows env) (db : Database) {es : List (SystemEvent κ ι)}
    (hin : EachStep (System.step user device env.toLowerCase numText) (SystemOrderly env user device)
      (.opened db) es)
    (h : run (System.step user device env.toLowerCase numText) (.opened db) es = some w) (i : ι) :
    ∃ value, Of intended {db.list (user (device i)).itemsRef, []}
        (es.flatMap (SystemEvent.made user (user (device i)))) (Items.toList value) ∧
      (∀ jsonText ∈ (w.net.visit i).requests, requestBody value = some jsonText) ∧
      ∀ r ∈ (w.net.visit i).shown, page r = ((Items.toList value).map (shown env)).sum ↔
        ∀ item ∈ Items.toList value, NotInBothStores env item := by
  have hnone : ∀ _ : ι, Sendable none := fun _ _ hl => nomatch hl
  have hkept : Kept env numText i [none] (.opened fun _ => none) := kept_opened hnone i
  have hopened : Backed env numText user (user (device i)) {db.list (user (device i)).itemsRef, []} i []
      (.opened db) :=
    ⟨Devices.allReplayed_opened user (user (device i)) db, [none], hkept, fun v hv => by
      rw [List.mem_singleton.mp hv]
      exact .base (.inr rfl) []⟩
  have hend := Replay.inv_of_run_log (SystemEvent.made user (user (device i)))
    (Backed env numText user (user (device i)) {db.list (user (device i)).itemsRef, []} i)
    (fun _ _ _ _ hi hp h => backed_step hdb (.inr rfl) hi hp h) hopened hin h
  rw [List.nil_append] at hend
  obtain ⟨values, hkept, hof⟩ := hend.kept
  obtain ⟨value, hmem, hr, hshows⟩ := hkept.right.shows
  exact ⟨value, hof value hmem, hr.requests, hshows.shown⟩

end system

/-! ### A list made on one device and compared on another -/

instance {env : Env Decimal} {user : κ → Uid} {device : ι → κ} (w : System κ ι) :
    ∀ e, Decidable (SystemOrderly env user device w e)
  | .list _ => isTrue trivial
  | .net (.visit i .serve) => inferInstanceAs (Decidable (Sendable (w.readable user device i)))
  | .net (.visit _ (.store value)) => inferInstanceAs (Decidable (Sendable value))
  | .net (.callback c e) => inferInstanceAs (Decidable (Orderly env w.net (.callback c e)))
  | .net (.visit _ .currentUser) | .net (.visit _ .complete) | .net (.visit _ (.tap _))
  | .net (.visit _ .compare) | .net (.visit _ (.response _ _)) | .net (.visit _ (.fail _))
  | .net (.visit _ .dispose) | .net (.arrive _ _) | .net (.other _) | .net (.deliver _) => isTrue trivial

/-- Cocoa is put on the list on one device; the price page of the other one reads the list and
compares it, while tea is added there. -/
def cocoaSystem : List (SystemEvent Bool Unit) :=
  [.list (true, .page (.currentUser 0)), .list (true, .page (.add "cocoa")), .list (true, .arrive),
    .net (.visit () .currentUser), .net (.visit () .serve), .net (.visit () .complete),
    .net (.visit () .compare), .list (false, .page (.currentUser 0)), .list (false, .page (.add "tea")),
    .net (.arrive () 0), .net (.callback 0 (.query 0 (.ok []))),
    .net (.callback 0 (.query 0 (.ok [Server.cocoa]))), .net (.callback 0 (.timer 0)),
    .net (.callback 0 (.query 0 (.ok []))), .net (.callback 0 .respond), .net (.deliver 0)]

theorem system_show_iff_cocoa : ∃ w : System Bool Unit,
    run (System.step (fun _ => user1) (fun _ => false) Server.cocoaEnv.toLowerCase fun _ => "")
        (.opened .empty) cocoaSystem = some w ∧ (w.net.visit ()).shown.length = 1 ∧
      ∃ value, Of intended {[], []} [.add "cocoa", .add "tea"] (Items.toList value) ∧
        (∀ jsonText ∈ (w.net.visit ()).requests, requestBody value = some jsonText) ∧
        ∀ r ∈ (w.net.visit ()).shown,
          page r = ((Items.toList value).map (shown Server.cocoaEnv)).sum ↔
            ∀ item ∈ Items.toList value, NotInBothStores Server.cocoaEnv item := by
  have hrun : ((run (System.step (fun _ => user1) (fun _ => false) Server.cocoaEnv.toLowerCase fun _ => "")
      (.opened .empty) cocoaSystem).map fun w => (w.net.visit ()).shown.length) = some 1 := by
    decide +kernel
  obtain ⟨w, hw, hone⟩ := Option.map_eq_some_iff.mp hrun
  have hin : EachStep (System.step (fun _ => user1) (fun _ => false) Server.cocoaEnv.toLowerCase
      fun _ => "") (SystemOrderly Server.cocoaEnv (fun _ => user1) fun _ => false) (.opened .empty)
      cocoaSystem := by decide +kernel
  exact ⟨w, hw, hone, system_show_iff plainRows_cocoa .empty hin hw ()⟩

end EasyGrocery.Wire
