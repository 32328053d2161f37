import EasyGrocery.Server.Compare

/-! # What a callback of the compare handler can do

`Effect` lists the outcomes of a step, one for each kind of callback and branch; every fact about
runs is proved from it (`effect_of_step`).  The process-wide variables are assigned and then read
within one callback, so an effect says nothing about them. -/

namespace EasyGrocery.Server

variable {P : Type}

/-- The rows a query brings; none when it fails. -/
def Env.rows (env : Env P) (text : String) : List (Row P) :=
  match env.query text with
  | .ok rows => rows
  | .error _ => []

theorem Env.rows_of_ok {env : Env P} {text : String} {rows : List (Row P)}
    (h : env.query text = .ok rows) : env.rows text = rows := by
  simp [Env.rows, h]

theorem Env.rows_of_error {env : Env P} {text : String} {err : String}
    (h : env.query text = .error err) : env.rows text = [] := by
  simp [Env.rows, h]

/-- `values` is read right after it was assigned. -/
theorem State.assignValues_eq (env : Env P) (s : State P) (target : String) (result : List (Row P)) :
    ∃ g : Globals P, s.assignValues env target result = { s with globals := g } ∧
      g.values = mostSimilar env.toLowerCase target result := by
  refine ⟨_, rfl, ?_⟩
  exact findMostSimilar_snd env.toLowerCase s.globals target result

/-! ### The effect of a step -/

section effect

variable [Add P]

inductive Effect (env : Env P) (s : State P) : Event → State P → Prop
  | failed {k : ℕ} {q : Query} {err : String} : s.queries[k]? = some q →
      env.query q.text = .error err →
      Effect env s (.query k)
        { s with queries := s.queries.eraseIdx k, thrown := some (.queryError err) }
  | empty {k : ℕ} {q : Query} (g : Globals P) : s.queries[k]? = some q →
      env.query q.text = .ok [] →
      Effect env s (.query k) { s with queries := s.queries.eraseIdx k, globals := g }
  | safeway {k i : ℕ} {text : String} {row : Row P} {rows : List (Row P)} :
      s.queries[k]? = some ⟨.safeway, i, text⟩ → env.query text = .ok (row :: rows) →
      Effect env s (.query k)
        { s with
          queries := s.queries.eraseIdx k
          vars := Function.update s.vars i
            { s.vars i with
              inSafeway := true
              safewayTempPrice := row.ProductPrice
              safewayTempName := row.ProductName
              safewayCategory := row.Category } }
  | walmart {k i : ℕ} {text : String} {row : Row P} {rows : List (Row P)} :
      s.queries[k]? = some ⟨.walmart, i, text⟩ → env.query text = .ok (row :: rows) →
      Effect env s (.query k)
        { s with
          queries := s.queries.eraseIdx k
          vars := Function.update s.vars i
            { s.vars i with
              inWalmart := true
              walmartTempPrice := row.ProductPrice
              walmartTempName := row.ProductName } }
  | similarWalmart {k i : ℕ} {text : String} {rows : List (Row P)} {name : String} {price : P}
      (g : Globals P) : s.queries[k]? = some ⟨.similarWalmart, i, text⟩ →
      env.query text = .ok rows →
      mostSimilar env.toLowerCase (s.vars i).safewayTempName rows = .values name price →
      Effect env s (.query k)
        { s with
          queries := s.queries.eraseIdx k
          globals := g
          walmartPrice := s.walmartPrice + price
          nextRef := s.nextRef + 1
          walmartList := s.walmartList ++ [.pair s.nextRef name price] }
  | similarSafeway {k i : ℕ} {text : String} {rows : List (Row P)} {name : String} {price : P}
      (g : Globals P) : s.queries[k]? = some ⟨.similarSafeway, i, text⟩ →
      env.query text = .ok rows →
      mostSimilar env.toLowerCase (s.vars i).walmartTempName rows = .values name price →
      Effect env s (.query k)
        { s with
          queries := s.queries.eraseIdx k
          globals := g
          safewayPrice := s.safewayPrice + price
          nextRef := s.nextRef + 1
          safewayList := s.safewayList ++ [.pair s.nextRef name price] }
  | both {i : ℕ} : i ∈ s.timers → (s.vars i).inSafeway = true → (s.vars i).inWalmart = true →
      Effect env s (.timer i)
        { s with
          timers := s.timers.erase i
          safewayPrice := s.safewayPrice + (s.vars i).safewayTempPrice
          safewayList := s.safewayList ++ [.name (s.vars i).safewayTempName]
          walmartPrice := s.walmartPrice + (s.vars i).walmartTempPrice
          walmartList := s.walmartList ++ [.name (s.vars i).walmartTempName] }
  | onlySafeway {i : ℕ} : i ∈ s.timers → (s.vars i).inSafeway = true →
      (s.vars i).inWalmart = false →
      Effect env s (.timer i)
        { s with
          timers := s.timers.erase i
          safewayPrice := s.safewayPrice + (s.vars i).safewayTempPrice
          nextRef := s.nextRef + 1
          safewayList := s.safewayList ++
            [.pair s.nextRef (s.vars i).safewayTempName (s.vars i).safewayTempPrice]
          queries := s.queries ++ [⟨.similarWalmart, i, sql3⟩] }
  | onlyWalmart {i : ℕ} : i ∈ s.timers → (s.vars i).inSafeway = false →
      (s.vars i).inWalmart = true →
      Effect env s (.timer i)
        { s with
          timers := s.timers.erase i
          walmartPrice := s.walmartPrice + (s.vars i).walmartTempPrice
          nextRef := s.nextRef + 1
          walmartList := s.walmartList ++
            [.pair s.nextRef (s.vars i).walmartTempName (s.vars i).walmartTempPrice]
          queries := s.queries ++ [⟨.similarSafeway, i, sql4 (s.vars i).safewayCategory⟩] }
  | neither {i : ℕ} : i ∈ s.timers → (s.vars i).inSafeway = false →
      (s.vars i).inWalmart = false →
      Effect env s (.timer i)
        { s with
          timers := s.timers.erase i
          safewayUnknown := s.safewayUnknown + 1
          walmartUnknown := s.walmartUnknown + 1 }
  | respond (g : Globals P) (sent : List String) (thrown : Option Thrown) : s.responding = true →
      Effect env s .respond
        { s with responding := false, globals := g, sent := sent, thrown := thrown }

namespace State

variable (env : Env P) (s : State P) (i : ℕ)

theorem onSimilarWalmart_eq (result : List (Row P)) :
    ∃ g : Globals P, s.onSimilarWalmart env i result =
      match mostSimilar env.toLowerCase (s.vars i).safewayTempName result with
      | .null => { s with globals := g }
      | .values name price =>
          { s with
            globals := g
            walmartPrice := s.walmartPrice + price
            nextRef := s.nextRef + 1
            walmartList := s.walmartList ++ [.pair s.nextRef name price] } := by
  obtain ⟨g, hg, hv⟩ := s.assignValues_eq env (s.vars i).safewayTempName result
  rw [onSimilarWalmart, hg, ← hv]
  cases hm : g.values with
  | null => exact ⟨g, by simp⟩
  | values name price =>
      refine ⟨{ g with toAdd := .pair s.nextRef name price }, ?_⟩
      simp [hm, assignToAdd, newPair, pushWalmart]

theorem onSimilarSafeway_eq (result : List (Row P)) :
    ∃ g : Globals P, s.onSimilarSafeway env i result =
      match mostSimilar env.toLowerCase (s.vars i).walmartTempName result with
      | .null => { s with globals := g }
      | .values name price =>
          { s with
            globals := g
            safewayPrice := s.safewayPrice + price
            nextRef := s.nextRef + 1
            safewayList := s.safewayList ++ [.pair s.nextRef name price] } := by
  obtain ⟨g, hg, hv⟩ := s.assignValues_eq env (s.vars i).walmartTempName result
  rw [onSimilarSafeway, hg, ← hv]
  cases hm : g.values with
  | null => exact ⟨g, by simp⟩
  | values name price =>
      refine ⟨{ g with toAdd := .pair s.nextRef name price }, ?_⟩
      simp [hm, assignToAdd, newPair, pushSafeway]

theorem effect_onQuery {k : ℕ} {q : Query} (hq : s.queries[k]? = some q) :
    Effect env s (.query k)
      ({ s with queries := s.queries.eraseIdx k }.onQuery env q (env.query q.text)) := by
  obtain ⟨kind, i, text⟩ := q
  cases hr : env.query text with
  | error err => exact .failed hq hr
  | ok result =>
      cases kind with
      | safeway => cases result with
        | nil => exact .empty s.globals hq hr
        | cons row rows => exact .safeway hq hr
      | walmart => cases result with
        | nil => exact .empty s.globals hq hr
        | cons row rows => exact .walmart hq hr
      | similarWalmart =>
          obtain ⟨g, hg⟩ := onSimilarWalmart_eq env { s with queries := s.queries.eraseIdx k } i result
          simp only [onQuery]
          rw [hg]
          cases result with
          | nil => exact .empty g hq hr
          | cons row rows =>
              obtain ⟨r, -, hm⟩ := mostSimilar_mem env.toLowerCase (s.vars i).safewayTempName
                (List.cons_ne_nil row rows)
              rw [hm]
              exact .similarWalmart g hq hr hm
      | similarSafeway =>
          obtain ⟨g, hg⟩ := onSimilarSafeway_eq env { s with queries := s.queries.eraseIdx k } i result
          simp only [onQuery]
          rw [hg]
          cases result with
          | nil => exact .empty g hq hr
          | cons row rows =>
              obtain ⟨r, -, hm⟩ := mostSimilar_mem env.toLowerCase (s.vars i).walmartTempName
                (List.cons_ne_nil row rows)
              rw [hm]
              exact .similarSafeway g hq hr hm

theorem effect_onTimer (hi : i ∈ s.timers) :
    Effect env s (.timer i) ({ s with timers := s.timers.erase i }.onTimer i) := by
  cases hs : (s.vars i).inSafeway <;> cases hw : (s.vars i).inWalmart <;>
    simp only [onTimer, hs, hw, Bool.and_self, Bool.and_false, Bool.and_true, if_true, if_false,
      Bool.false_eq_true]
  · exact .neither hi hs hw
  · exact .onlyWalmart hi hs hw
  · exact .onlySafeway hi hs hw
  · exact .both hi hs hw

theorem effect_onResponse [Price P] (hr : s.responding = true) :
    Effect env s .respond ({ s with responding := false }.onResponse) := by
  unfold onResponse
  split
  · exact .respond _ _ _ hr
  · exact .respond _ _ _ hr

end State

theorem effect_of_step [Price P] {env : Env P} {s s' : State P} {e : Event}
    (h : step env s e = some s') : Effect env s e s' ∧ s.thrown = none := by
  unfold step at h
  split at h
  · cases h
  · next ht =>
    refine ⟨?_, by simpa using ht⟩
    cases e with
    | query k =>
        cases hq : s.queries[k]? with
        | none => simp [hq] at h
        | some q =>
            simp only [hq, Option.some.injEq] at h
            exact h ▸ s.effect_onQuery env hq
    | timer i =>
        simp only [Option.ite_none_right_eq_some, Option.some.injEq] at h
        obtain ⟨hi, rfl⟩ := h
        exact s.effect_onTimer env i hi
    | respond =>
        simp only [Option.ite_none_right_eq_some, Option.some.injEq] at h
        obtain ⟨hr, rfl⟩ := h
        exact s.effect_onResponse env hr

end effect

end EasyGrocery.Server
