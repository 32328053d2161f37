import EasyGrocery.App.PricePage
import EasyGrocery.Wire.Comparison

/-! # What a visit to the price page leads to

The page posts the list it has read, a comparison of that list answers, and the page hands on
what it has been able to read.  The stored list may change at any time; all comparisons of a
visit are of the one list it has read, and what is handed on is what that list costs, precisely
when no item of it is found in both stores (`Right`, kept by every step: `right_step`). -/

namespace EasyGrocery.Wire

open Firebase Guarded
open Prices (Visit Reads requestBody encodeListAsJson readResponse PriceCompareReturn)
open Server (Env InTime)

variable {env : Env Decimal} {numText : ℚ → String}

/-- A value under which nothing is stored, or a list the encoder gets across. -/
def Sendable (value : Option Items) : Prop := ∀ l, value = some l → Encodable l.1

/-- Lists that are stored can be encoded, and every response comes from a comparison in time of
the list that its request was made from. -/
def Served (env : Env Decimal) (numText : ℚ → String) (s : Visit) : Prices.Event → Prop
  | .store value => Sendable value
  | .response k body => ∃ jsonText stored es t,
      s.pending[k]?.bind (fun i => s.requests[i]?) = some jsonText ∧ Encodable stored ∧
        encodeListAsJson (loadedPrices stored) = some jsonText ∧
        Comparison env numText stored es t body ∧ InTime env .init stored es t
  | _ => True

/-- Two lists that get across have different texts. -/
theorem encode_injective {stored stored' : List String} (h : Encodable stored) (h' : Encodable stored')
    (heq : encodeListAsJson (loadedPrices stored) = encodeListAsJson (loadedPrices stored')) :
    stored = stored' := by
  obtain ⟨text, body, henc, hparse, hreq⟩ := requestIntact_of_encodable h
  obtain ⟨text', body', henc', hparse', hreq'⟩ := requestIntact_of_encodable h'
  obtain rfl : text = text' := by rwa [henc, henc', Option.some.injEq] at heq
  obtain rfl : body = body' := by
    have := hparse.symm.trans hparse'
    simpa using this
  have hlists := Option.some.inj (hreq.symm.trans hreq')
  exact List.map_injective_iff.mpr (fun a b hab => by simpa using hab) hlists

/-- A request is made from a list. -/
theorem requestBody_eq_some {value : Option Items} {jsonText : String}
    (h : requestBody value = some jsonText) :
    ∃ l, value = some l ∧ encodeListAsJson (loadedPrices l.1) = some jsonText := by
  cases value with
  | none => cases h
  | some l =>
      refine ⟨l, rfl, ?_⟩
      rw [loadedPrices, Items.ofList, dif_pos l.2]
      exact h

/-- What is handed on is right for the list read, exactly when no item is found in both stores. -/
structure Shows (env : Env Decimal) (s : Visit) (value : Option Items) : Prop where
  early : s.loading ≠ .done → s.pending = [] ∧ s.shown = []
  shown : ∀ r ∈ s.shown, page r = ((Items.toList value).map (shown env)).sum ↔
    ∀ item ∈ Items.toList value, NotInBothStores env item

theorem shows_opened (stored value : Option Items) : Shows env (.opened stored) value where
  early := fun _ => ⟨rfl, rfl⟩
  shown := by
    intro r hr
    cases hr

/-- A response that can be read is right for the list its request was made from. -/
theorem page_iff_of_served (hdb : PlainRows env) {s : Visit} {value : Option Items} (hr : Reads s value)
    (hv : Sendable value) {k : ℕ} {body : String} (hserved : Served env numText s (.response k body))
    {r : PriceCompareReturn} (hread : readResponse body = some r) :
    page r = ((Items.toList value).map (shown env)).sum ↔
      ∀ item ∈ Items.toList value, NotInBothStores env item := by
  obtain ⟨jsonText, stored, es, t, hrequest, hstored, henc, hcomparison, hin⟩ := hserved
  obtain ⟨i, -, hi⟩ := Option.bind_eq_some_iff.mp hrequest
  obtain ⟨l, rfl, hloaded⟩ := requestBody_eq_some (hr.requests _ (List.mem_of_getElem? hi))
  obtain rfl := encode_injective (hv l rfl) hstored (hloaded.trans henc.symm)
  exact page_eq_iff hdb hstored hcomparison hin hread

theorem shows_step (hdb : PlainRows env) {s s' : Visit} {e : Prices.Event} {value : Option Items}
    (h : Shows env s value) (hr : Reads s value) (hv : Sendable value) (hserved : Served env numText s e)
    (hstep : Prices.step s e = some s') : Shows env s' (e.readBy s value) := by
  cases Prices.effect_of_step hstep with
  | store v => exact ⟨h.early, h.shown⟩
  | currentUser hl => exact ⟨fun _ => h.early (by simp [hl]), h.shown⟩
  | serve hl =>
      -- nothing has been shown before
      obtain ⟨hpending, hnone⟩ := h.early (by simp [hl])
      refine ⟨fun _ => ⟨hpending, hnone⟩, fun r hmem => ?_⟩
      rw [hnone] at hmem
      cases hmem
  | complete v hl => exact ⟨fun hd => absurd rfl hd, h.shown⟩
  | tap index => exact ⟨h.early, h.shown⟩
  | quiet => exact h
  | post jsonText henc =>
      refine ⟨fun hl => ?_, h.shown⟩
      simp [encodeListAsJson, (hr.early hl).1] at henc
  | lost k body hk _ =>
      exact ⟨fun hl => absurd hk (by simp [(h.early hl).1]), h.shown⟩
  | answered k body r hk hread =>
      refine ⟨fun hl => absurd hk (by simp [(h.early hl).1]), fun r' hmem => ?_⟩
      rcases List.mem_append.mp hmem with hmem | hmem
      · exact h.shown r' hmem
      · obtain rfl := List.mem_singleton.mp hmem
        exact page_iff_of_served hdb hr hv hserved hread
  | fail k => exact ⟨fun hl => by simp [(h.early hl).1, (h.early hl).2], h.shown⟩
  | dispose => exact ⟨h.early, h.shown⟩

/-- All values stored can be sent, and what has been shown is right for the one that was read. -/
structure Right (env : Env Decimal) (values : List (Option Items)) (s : Visit) : Prop where
  sendable : ∀ v ∈ values, Sendable v
  stored : s.stored ∈ values
  shows : ∃ value ∈ values, Reads s value ∧ Shows env s value

theorem right_opened {stored : Option Items} (hs : Sendable stored) :
    Right env [stored] (.opened stored) where
  sendable _ hv := List.mem_singleton.mp hv ▸ hs
  stored := List.mem_singleton_self _
  shows := ⟨stored, List.mem_singleton_self _, Prices.reads_opened stored stored, shows_opened stored stored⟩

theorem right_step (hdb : PlainRows env) {values : List (Option Items)} {s s' : Visit} {e : Prices.Event}
    (h : Right env values s) (hserved : Served env numText s e) (hstep : Prices.step s e = some s') :
    Right env (values ++ e.stores) s' := by
  obtain ⟨value, hv, hr, hshows⟩ := h.shows
  refine ⟨fun v hv => ?_, Prices.stored_step h.stored hstep, e.readBy s value,
    List.mem_append_left _ (Prices.readBy_mem h.stored hv e), Prices.reads_step hr hstep,
    shows_step hdb hshows hr (h.sendable value hv) hserved hstep⟩
  rcases List.mem_append.mp hv with hv | hv
  · exact h.sendable v hv
  · cases e with
    | store w => exact List.mem_singleton.mp hv ▸ hserved
    | _ => cases hv

end EasyGrocery.Wire
