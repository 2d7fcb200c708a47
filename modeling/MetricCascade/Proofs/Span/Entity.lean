/-
Entities and the names they are put together from. An entity tells its names if none of them contains
the separator behind it; then spans are counted in one row only if they agree on these names. Names
that contain a separator can be shared out differently over the same entity.
-/
import MetricCascade.Proofs.Span.Dispatch
import MetricCascade.Proofs.Text.Names

namespace MetricCascade

open Names

namespace Scope

/-- The names that tell the entities of a scope apart, each but the first behind its separator. -/
def names (scope : Scope) (s : Span) : String × List (Char × String) :=
  match scope with
  | everything => ("all", [])
  | service => (s.reporter.service, [])
  | replica => (s.reporter.service, [('/', s.reporter.replica)])
  | endpoint => (s.reporter.service, [('/', s.reporter.endpoint)])
  | serviceCalls _ => (s.caller.service, [('-', s.callee.service)])
  | replicaCalls _ =>
    (s.caller.service, [('/', s.caller.replica), ('-', s.callee.service), ('/', s.callee.replica)])
  | endpointCalls _ =>
    (s.caller.service, [('/', s.caller.endpoint), ('-', s.callee.service), ('/', s.callee.endpoint)])

/-- The entity is its names and separators, one after the other. -/
theorem toList_entity (scope : Scope) (s : Span) :
    (scope.entity s).toList = spell (scope.names s).1 (scope.names s).2 := by
  cases scope <;> simp [entity, names, spell, toString]

theorem entity_eq_iff {scope : Scope} {s s' : Span} : scope.entity s = scope.entity s' ↔
    spell (scope.names s).1 (scope.names s).2 = spell (scope.names s').1 (scope.names s').2 := by
  rw [← String.toList_inj, toList_entity, toList_entity]

/-- The separators are those of the scope. -/
theorem separators_eq (scope : Scope) (s s' : Span) :
    (scope.names s).2.map (·.1) = (scope.names s').2.map (·.1) := by
  cases scope <;> rfl

/-- No name contains the separator behind it, or none the one before it. -/
def Told (scope : Scope) (s s' : Span) : Prop :=
  (Ends (scope.names s).1 (scope.names s).2 ∧ Ends (scope.names s').1 (scope.names s').2) ∨
    (Begins (scope.names s).1 (scope.names s).2 ∧ Begins (scope.names s').1 (scope.names s').2)

instance (scope : Scope) (s s' : Span) : Decidable (Told scope s s') :=
  inferInstanceAs (Decidable ((_ ∧ _) ∨ (_ ∧ _)))

theorem Told.names_eq {scope : Scope} {s s' : Span} (h : Told scope s s') :
    scope.entity s = scope.entity s' ↔ scope.names s = scope.names s' := by
  have hseps := separators_eq scope s s'
  rw [entity_eq_iff, Prod.ext_iff]
  constructor
  · intro htext
    rcases h with ⟨h, h'⟩ | ⟨h, h'⟩
    · exact h.unique h' hseps htext
    · exact h.unique h' hseps htext
  · rintro ⟨hfirst, hothers⟩
    rw [hfirst, hothers]

end Scope

namespace Span

/-- The span with other sides. -/
def between (caller callee : Party) (s : Span) : Span :=
  match s.vantage with
  | .server => { s with reporter := callee, peer := some caller }
  | .client => { s with reporter := caller, peer := some callee }

@[simp] theorem between_vantage (caller callee : Party) (s : Span) : (s.between caller callee).vantage = s.vantage := by
  unfold between
  cases s.vantage <;> rfl

@[simp] theorem between_caller (a b : Party) (s : Span) : (s.between a b).caller = a := by
  unfold between caller
  cases s.vantage <;> rfl

@[simp] theorem between_callee (a b : Party) (s : Span) : (s.between a b).callee = b := by
  unfold between callee
  cases s.vantage <;> rfl

end Span

namespace Scope

/-- Whatever names a scope asks for, there is a span of those names. -/
theorem exists_span (scope : Scope) (s : Span) {n : String} {rest : List (Char × String)} (hrest : rest ≠ [])
    (hseps : rest.map (·.1) = (scope.names s).2.map (·.1)) :
    ∃ s' : Span, s'.vantage = s.vantage ∧ scope.names s' = (n, rest) := by
  have hnil (h : rest.map (·.1) = []) : False := hrest (List.map_eq_nil_iff.1 h)
  have hone {c : Char} (h : rest.map (·.1) = [c]) : ∃ m, rest = [(c, m)] := by
    obtain ⟨⟨_, m⟩, rfl, rfl⟩ := List.map_eq_singleton_iff.1 h
    exact ⟨m, rfl⟩
  have hthree (h : rest.map (·.1) = ['/', '-', '/']) : ∃ l m o, rest = [('/', l), ('-', m), ('/', o)] := by
    obtain ⟨⟨_, l⟩, more, rfl, rfl, hmore⟩ := List.map_eq_cons_iff.1 h
    obtain ⟨⟨_, m⟩, last, rfl, rfl, hlast⟩ := List.map_eq_cons_iff.1 hmore
    obtain ⟨⟨_, o⟩, rfl, rfl⟩ := List.map_eq_singleton_iff.1 hlast
    exact ⟨l, m, o, rfl⟩
  cases scope with
  | everything => exact (hnil hseps).elim
  | service => exact (hnil hseps).elim
  | replica =>
    obtain ⟨m, rfl⟩ := hone hseps
    exact ⟨{ s with reporter := ⟨n, m, ""⟩ }, rfl, rfl⟩
  | endpoint =>
    obtain ⟨m, rfl⟩ := hone hseps
    exact ⟨{ s with reporter := ⟨n, "", m⟩ }, rfl, rfl⟩
  | serviceCalls v =>
    obtain ⟨m, rfl⟩ := hone hseps
    exact ⟨s.between ⟨n, "", ""⟩ ⟨m, "", ""⟩, by simp, by simp [names]⟩
  | replicaCalls v =>
    obtain ⟨l, m, o, rfl⟩ := hthree hseps
    exact ⟨s.between ⟨n, l, ""⟩ ⟨m, o, ""⟩, by simp, by simp [names]⟩
  | endpointCalls v =>
    obtain ⟨l, m, o, rfl⟩ := hthree hseps
    exact ⟨s.between ⟨n, "", l⟩ ⟨m, "", o⟩, by simp, by simp [names]⟩

/-- The entity of a span stands for its names alone exactly if none of them contains a separator next to it. -/
theorem sole_names_iff {scope : Scope} {s : Span} (hs : scope ∈ seenFrom s.vantage) :
    (∀ s', scope ∈ seenFrom s'.vantage → scope.entity s' = scope.entity s → scope.names s' = scope.names s) ↔
      Ends (scope.names s).1 (scope.names s).2 ∧ Begins (scope.names s).1 (scope.names s).2 := by
  constructor
  · intro hsole
    by_contra hnot
    obtain ⟨n, rest, hseps, htext, hne⟩ := exists_alike hnot
    have hrest : rest ≠ [] := by
      rintro rfl
      have hnone : (scope.names s).2 = [] := List.map_eq_nil_iff.1 hseps.symm
      exact hnot (hnone ▸ ⟨trivial, trivial⟩)
    obtain ⟨s', hvantage, hnames⟩ := exists_span scope s (n := n) hrest hseps
    refine hne ?_
    rw [← hnames]
    refine hsole s' (hvantage ▸ hs) (entity_eq_iff.2 ?_)
    rw [hnames]
    exact htext
  · rintro ⟨hends, hbegins⟩ s' - htext
    have hsame := unique_of_ends_begins hends hbegins (separators_eq scope s s') (entity_eq_iff.1 htext.symm)
    exact (Prod.ext hsame.1 hsame.2).symm

end Scope

open Scope MetricCascade.Span

/-- Which names an entity tells. A span shares its entity with spans of the same names only, exactly if none
of its names contains a separator next to it. Two spans in which no name contains the separator behind it,
or none the one before it, have one entity exactly if they have the same names; they count for one row
exactly if they also start in one minute. -/
theorem entity_tells_names_iff {scope : Scope} {s : Span} (hs : scope ∈ seenFrom s.vantage) :
    ((∀ s', scope ∈ seenFrom s'.vantage → scope.entity s' = scope.entity s → scope.names s' = scope.names s) ↔
      Ends (scope.names s).1 (scope.names s).2 ∧ Begins (scope.names s).1 (scope.names s).2) ∧
    ∀ s', scope ∈ seenFrom s'.vantage → Told scope s s' →
      (scope.entity s = scope.entity s' ↔ scope.names s = scope.names s') ∧
      ∀ k, s.CountsFor scope k →
        (s'.CountsFor scope k ↔ scope.names s = scope.names s' ∧ Bucket.ofMillis s'.start = Bucket.ofMillis s.start) := by
  refine ⟨sole_names_iff hs, fun s' hs' htold => ⟨htold.names_eq, ?_⟩⟩
  rintro k ⟨-, hbucket, hentity⟩
  unfold CountsFor
  rw [← htold.names_eq, hbucket, hentity]
  constructor
  · rintro ⟨-, hbucket', hentity'⟩
    exact ⟨hentity'.symm, hbucket'⟩
  · rintro ⟨hentity', hbucket'⟩
    exact ⟨hs', hbucket', hentity'.symm⟩

/-- A payment, and what came back of it. -/
def payment : Span := ⟨⟨"checkout", "pod-1", "/pay/now"⟩, none, .server, 1710512879000, 1710512879250, false⟩

def refund : Span := ⟨⟨"checkout", "pod-1", "/pay"⟩, none, .server, 1710512871000, 1710512871100, true⟩

/-- An endpoint may contain slashes: their entities differ, as long as no service contains one. -/
theorem entity_tells_names_iff_endpoints :
    endpoint ∈ seenFrom payment.vantage ∧ endpoint ∈ seenFrom refund.vantage ∧ Told endpoint payment refund ∧
      endpoint.entity payment ≠ endpoint.entity refund ∧
      ¬ ∀ s', endpoint ∈ seenFrom s'.vantage → endpoint.entity s' = endpoint.entity payment →
        endpoint.names s' = endpoint.names payment := by
  have hpayment : endpoint ∈ seenFrom payment.vantage := by decide
  have hrefund : endpoint ∈ seenFrom refund.vantage := by decide
  have htold : Told endpoint payment refund := by decide
  obtain ⟨hsole, hpairs⟩ := entity_tells_names_iff hpayment
  refine ⟨hpayment, hrefund, htold, fun h => ?_, fun h => ?_⟩
  · exact absurd ((hpairs refund hrefund htold).1.1 h) (by decide)
  · exact absurd (hsole.1 h) (by decide)

/-- Two calls between different services: a hyphen ends the first name of one and begins the second of the other. -/
def callFromShop : Span :=
  ⟨⟨"shop", "pod-1", "/buy"⟩, some ⟨"eu-stock", "pod-2", "/take"⟩, .client, 1710512879000, 1710512879250, false⟩

def callFromShopEu : Span :=
  ⟨⟨"shop-eu", "pod-1", "/buy"⟩, some ⟨"stock", "pod-2", "/take"⟩, .client, 1710512871000, 1710512871100, false⟩

/-- They have one entity and count for one row, though neither their callers nor their callees agree. -/
theorem different_calls_share_row :
    (serviceCalls .client).entity callFromShop = (serviceCalls .client).entity callFromShopEu ∧
      callFromShop.CountsFor (serviceCalls .client) ⟨"shop-eu-stock", ⟨202403151427⟩⟩ ∧
      callFromShopEu.CountsFor (serviceCalls .client) ⟨"shop-eu-stock", ⟨202403151427⟩⟩ ∧
      callFromShop.caller.service ≠ callFromShopEu.caller.service ∧
      callFromShop.callee.service ≠ callFromShopEu.callee.service ∧
      (serviceCalls .client).names callFromShop ≠ (serviceCalls .client).names callFromShopEu := by
  decide +kernel

end MetricCascade
