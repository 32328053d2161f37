import EasyGrocery.Lib.Interleave
import EasyGrocery.Server.Handlers

/-! # Concurrent requests

About ten variables of the script are never declared, so all requests share them.  Each callback
assigns one before it reads it, and what it leaves in its request does not depend on what was
there before (`step_local`).  So the requests of one process are a confined system, and each of
them ends, responses included, as it does alone (`requests_alone`). -/

namespace EasyGrocery.Server

open Guarded Interleave

variable {P : Type}

/-! ### What a callback leaves in its request -/

section locals

variable (s : State P) (g g' : Globals P)

theorem itemToJson_snd [Price P] (last : Option (Entry P)) (jsonStr : String) (item : Entry P) :
    (itemToJson last g jsonStr item).2 = (itemToJson last g' jsonStr item).2 := by
  unfold itemToJson
  cases last.any item.strictEq with
  | true => rfl
  | false => rfl

theorem itemsToJson_cons [Price P] (last : Option (Entry P)) (jsonStr : String) (item : Entry P)
    (list : List (Entry P)) :
    itemsToJson last g jsonStr (item :: list) =
      itemsToJson last (itemToJson last g jsonStr item).1 (itemToJson last g jsonStr item).2 list := rfl

theorem itemsToJson_snd [Price P] (last : Option (Entry P)) (jsonStr : String)
    (list : List (Entry P)) :
    (itemsToJson last g jsonStr list).2 = (itemsToJson last g' jsonStr list).2 := by
  induction list generalizing g g' jsonStr with
  | nil => rfl
  | cons item list ih =>
      rw [itemsToJson_cons, itemsToJson_cons, itemToJson_snd g g']
      exact ih _ _ _

/-- The text of the answer does not depend on `json`, `name` and `cost`. -/
theorem convertToJson_snd [Price P] (info : Info P) :
    (convertToJson g info).map Prod.snd = (convertToJson g' info).map Prod.snd := by
  unfold convertToJson
  cases Price.toFixed2 info.sPrice with
  | none => rfl
  | some sPrice =>
      cases Price.toFixed2 info.wPrice with
      | none => rfl
      | some wPrice =>
          simp only [Option.bind_eq_bind, Option.bind_some, Option.map_some]
          rw [itemsToJson_snd g g', itemsToJson_snd _
            (itemsToJson info.sList[info.sList.length - 1]? g' _ info.sList).1]

theorem onResponse_local_eq [Price P] :
    s.onResponse.local = ((convertToJson s.globals s.info).map Prod.snd).elim
      { s.local with thrown := some .toFixed }
      fun packet => { s.local with sent := s.sent ++ [packet] } := by
  unfold State.onResponse
  cases convertToJson s.globals s.info with
  | none => rfl
  | some a => rfl

theorem onResponse_local [Price P] :
    ({ s with globals := g }.onResponse).local = ({ s with globals := g' }.onResponse).local := by
  rw [onResponse_local_eq, onResponse_local_eq]
  exact congrArg (fun packet : Option String => packet.elim _ _) (convertToJson_snd g g' s.info)

theorem onSafeway_local (i : ℕ) (rows : List (Row P)) :
    ({ s with globals := g }.onSafeway i rows).local =
      ({ s with globals := g' }.onSafeway i rows).local := by
  cases rows with
  | nil => rfl
  | cons row rows => rfl

theorem onWalmart_local (i : ℕ) (rows : List (Row P)) :
    ({ s with globals := g }.onWalmart i rows).local =
      ({ s with globals := g' }.onWalmart i rows).local := by
  cases rows with
  | nil => rfl
  | cons row rows => rfl

variable [Add P] (env : Env P)

theorem onSimilarWalmart_local (i : ℕ) (rows : List (Row P)) :
    ({ s with globals := g }.onSimilarWalmart env i rows).local =
      ({ s with globals := g' }.onSimilarWalmart env i rows).local := by
  obtain ⟨a, ha⟩ := State.onSimilarWalmart_eq env { s with globals := g } i rows
  obtain ⟨b, hb⟩ := State.onSimilarWalmart_eq env { s with globals := g' } i rows
  rw [ha, hb]
  cases mostSimilar env.toLowerCase (s.vars i).safewayTempName rows with
  | null => rfl
  | values name price => rfl

theorem onSimilarSafeway_local (i : ℕ) (rows : List (Row P)) :
    ({ s with globals := g }.onSimilarSafeway env i rows).local =
      ({ s with globals := g' }.onSimilarSafeway env i rows).local := by
  obtain ⟨a, ha⟩ := State.onSimilarSafeway_eq env { s with globals := g } i rows
  obtain ⟨b, hb⟩ := State.onSimilarSafeway_eq env { s with globals := g' } i rows
  rw [ha, hb]
  cases mostSimilar env.toLowerCase (s.vars i).walmartTempName rows with
  | null => rfl
  | values name price => rfl

theorem onQuery_local (q : Query) (outcome : Except String (List (Row P))) :
    ({ s with globals := g }.onQuery env q outcome).local =
      ({ s with globals := g' }.onQuery env q outcome).local := by
  cases outcome with
  | error err => rfl
  | ok rows =>
      obtain ⟨kind, i, text⟩ := q
      cases kind with
      | safeway => exact onSafeway_local s g g' i rows
      | walmart => exact onWalmart_local s g g' i rows
      | similarWalmart => exact onSimilarWalmart_local s g g' env i rows
      | similarSafeway => exact onSimilarSafeway_local s g g' env i rows

theorem onTimer_local (i : ℕ) :
    ({ s with globals := g }.onTimer i).local = ({ s with globals := g' }.onTimer i).local := by
  cases hs : (s.vars i).inSafeway <;> cases hw : (s.vars i).inWalmart <;>
    simp [State.onTimer, hs, hw, State.local, State.newPair, State.pushSafeway, State.pushWalmart,
      State.issue]

/-- **What a callback leaves in its request does not depend on the variables of the process.** -/
theorem step_local [Price P] (e : Event) :
    (step env { s with globals := g } e).map State.local =
      (step env { s with globals := g' } e).map State.local := by
  cases e with
  | query k =>
      simp only [step]
      split_ifs with ht
      · rfl
      · cases s.queries[k]? with
        | none => rfl
        | some q =>
            exact congrArg some (onQuery_local { s with queries := s.queries.eraseIdx k } g g' env q _)
  | timer i =>
      simp only [step]
      split_ifs with ht hi
      · rfl
      · exact congrArg some (onTimer_local { s with timers := s.timers.erase i } g g' i)
      · rfl
  | respond =>
      simp only [step]
      split_ifs with ht hr
      · rfl
      · exact congrArg some (onResponse_local { s with responding := false } g g')
      · rfl

end locals

/-! ### Requests of one process -/

theorem compareStep_snd [Add P] [Price P] (toLowerCase : String → String) (g g' : Globals P)
    (r : CompareRequest P) (outcome : Except String (List (Row P))) (e : Event) :
    (r.step toLowerCase g outcome e).map Prod.snd = (r.step toLowerCase g' outcome e).map Prod.snd := by
  have h := step_local r.state g g' ⟨toLowerCase, fun _ => outcome⟩ e
  unfold CompareRequest.step
  rw [Option.map_map, Option.map_map]
  have hsnd : (Prod.snd ∘ fun s : State P => (s.globals, { r with state := s.local })) =
      (fun s => ({ r with state := s } : CompareRequest P)) ∘ State.local := rfl
  rw [hsnd, ← Option.map_map, ← Option.map_map, h]

theorem compare_snd {a b : Option (Globals P × CompareRequest P)}
    (h : a.map Prod.snd = b.map Prod.snd) :
    (a.map fun (g, r) => (g, Request.compare r)).map Prod.snd =
      (b.map fun (g, r) => (g, Request.compare r)).map Prod.snd := by
  have hmap := congrArg (Option.map Request.compare) h
  rw [Option.map_map, Option.map_map] at hmap ⊢
  exact hmap

section process

variable [Zero P] [Add P] [Price P]

/-- The requests of the server process; an exception that escapes ends it. -/
def process (toLowerCase : String → String) (numText : ℚ → String) :
    System (Globals P) (Request P) (Callback P) Call where
  arrive := Request.arrive numText
  step := Request.step toLowerCase
  stopped r := r.thrown.isSome

theorem confined_process (toLowerCase : String → String) (numText : ℚ → String) :
    (process (P := P) toLowerCase numText).Confined where
  arrive g g' call := by
    cases call with
    | item query => exact congrArg Request.item ((onItem_snd g query).trans (onItem_snd g' query).symm)
    | compare body => rfl
  step g g' r c := by
    cases r with
    | item r =>
        cases c with
        | result outcome =>
            simp only [process, Request.step]
            split_ifs <;> rfl
        | query k outcome => rfl
        | timer i => rfl
        | respond => rfl
    | compare r =>
        simp only [process, Request.step]
        cases c.event with
        | none => rfl
        | some p => exact compare_snd (compareStep_snd toLowerCase g g' r p.1 p.2)

/-- **Concurrent requests do not mix.**  Any number of requests arrive and take their callbacks in
any order; each of them ends, with all it has sent, as it does alone in a process with any
variables, with the same answers of the database and the same order of its own callbacks. -/
theorem requests_alone (toLowerCase : String → String) (numText : ℚ → String) (g g' : Globals P)
    (es : List (Interleave.Event (Callback P) Call)) (t : Pool (Globals P) (Request P))
    (h : run (process toLowerCase numText).poolStep ⟨g, []⟩ es = some t) (i : ℕ) (r : Request P)
    (hi : t.components[i]? = some r) :
    ∃ u, run (process toLowerCase numText).poolStep ⟨g', []⟩ (own i 0 es) = some u ∧
      u.components = [r] :=
  alone (confined_process toLowerCase numText) h hi g'

end process

/-- A search and a comparison, taking turns. -/
theorem requests_alone_milk :
    let es : List (Interleave.Event (Callback Decimal) Call) :=
      [.arrive (.item (some "milk")), .arrive (.compare [.obj [("itemname", .str "milk")]]),
        .step 1 (.query 1 (.ok [⟨"milk", ⟨199, 2⟩, ""⟩])), .step 0 (.result (.ok ["whole milk"])),
        .step 1 (.query 0 (.ok [])), .step 1 (.timer 0), .step 1 .respond]
    ∃ t r, run (process id fun _ => "").poolStep ⟨.init, []⟩ es = some t ∧
      t.components[1]? = some r ∧
      ∃ u, run (process id fun _ => "").poolStep ⟨.init, []⟩ (own 1 0 es) = some u ∧
        u.components = [r] := by
  intro es
  have hrun : ((run (process id fun _ => "").poolStep ⟨.init, []⟩ es).bind
      fun t => t.components[1]?).isSome = true := by decide +kernel
  obtain ⟨r, hr⟩ := Option.isSome_iff_exists.mp hrun
  obtain ⟨t, ht, hr⟩ := Option.bind_eq_some_iff.mp hr
  exact ⟨t, r, ht, hr, requests_alone id (fun _ => "") .init .init es t ht 1 r hr⟩

end EasyGrocery.Server
