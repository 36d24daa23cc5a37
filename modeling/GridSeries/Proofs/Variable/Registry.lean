import GridSeries.Variable.Registry
import Mathlib.Data.List.Nodup

/-! Registrations, one after the other, from a registry without providers or with the built-in one. However many are
refused on the way, every claimed family has one provider, the first that was offered for it, and later registrations
change nothing of what it resolves. -/
namespace GridSeries

private theorem Provider.of_find?_eq_some {p : Provider} {name : String} {v : Variable} (h : p.find? name = some v) :
    v.family = p.family ∧ v.name = name := by
  cases p with
  | builtin =>
    obtain ⟨q, hq, rfl⟩ := Option.map_eq_some_iff.1 h
    exact ⟨rfl, Quantity.name_of_ofName? hq⟩
  | named family names =>
    rw [find?] at h
    split at h
    · cases h
      exact ⟨rfl, rfl⟩
    · cases h

namespace Registry

variable {r start : Registry} {p q : Provider} {ps : List Provider} {family name : String} {v : Variable} {f : Fault}

/-- What a registration leaves of a registry, refused or not. -/
def registered (r : Registry) (p : Provider) : Registry := (register p).after r

/-- What registrations in turn leave. -/
def registerAll (r : Registry) (ps : List Provider) : Registry := ps.foldl registered r

/-- Where a registry may start: without providers, or with that of the built-in quantities. -/
inductive Origin where
  | empty
  | standard

def Origin.registry : Origin → Registry
  | empty => .empty
  | standard => .standard

/-- The provider of a family, if it is claimed. -/
def provider? (r : Registry) (family : String) : Option Provider := r.providers.find? fun p => p.family == family

/-- The providers that registrations leave: those of the start, and each whose registration was not refused. -/
inductive Claims (start : Registry) (ps : List Provider) : Provider → Prop
  | kept {p : Provider} (hp : p ∈ start.providers) : Claims start ps p
  | registration (before after : List Provider) {p : Provider} (hps : ps = before ++ p :: after)
      (hok : ((register p).apply (start.registerAll before)).1 = .ok ()) : Claims start ps p

/-- Claimed families have a name, each its own. -/
structure Distinct (r : Registry) : Prop where
  named : ¬ "" ∈ r.families
  nodup : r.families.Nodup

private theorem apply_register (r : Registry) (p : Provider) :
    (register p).apply r =
      if p.family = "" ∨ p.family ∈ r.families then (.error (.family p.family), r)
      else (.ok (), ⟨r.providers ++ [p]⟩) := by
  rw [register, Update.apply_bind, Update.apply_get]
  dsimp only
  split
  · rfl
  · rfl

private theorem registered_eq (r : Registry) (p : Provider) :
    r.registered p = if p.family = "" ∨ p.family ∈ r.families then r else ⟨r.providers ++ [p]⟩ := by
  rw [registered, Update.after, apply_register]
  split
  · rfl
  · rfl

private theorem mem_registered_iff :
    q ∈ (r.registered p).providers ↔ q ∈ r.providers ∨ q = p ∧ ((register p).apply r).1 = .ok () := by
  rw [registered_eq, apply_register]
  by_cases h : p.family = "" ∨ p.family ∈ r.families
  · rw [if_pos h, if_pos h]
    exact (or_iff_left fun hq => nomatch hq.2).symm
  · rw [if_neg h, if_neg h, List.mem_append, List.mem_singleton, and_iff_left rfl]

private theorem Distinct.registered (h : r.Distinct) (p : Provider) : (r.registered p).Distinct := by
  rw [registered_eq]
  split
  · exact h
  · rename_i hnew
    rw [not_or] at hnew
    have hfamilies : families ⟨r.providers ++ [p]⟩ = r.families ++ [p.family] := List.map_append
    refine ⟨?_, ?_⟩
    · rw [hfamilies, List.mem_append, List.mem_singleton, not_or]
      exact ⟨h.named, fun he => hnew.1 he.symm⟩
    · rw [hfamilies]
      refine List.nodup_append.2 ⟨h.nodup, List.nodup_singleton _, fun a ha b hb heq => ?_⟩
      rw [heq, List.mem_singleton.1 hb] at ha
      exact hnew.2 ha

private theorem provider?_eq_none_iff : r.provider? family = none ↔ ¬ family ∈ r.families := by
  simp [provider?, families]

private theorem exists_provider (h : family ∈ r.families) : ∃ p, r.provider? family = some p :=
  Option.ne_none_iff_exists'.1 fun hnone => provider?_eq_none_iff.1 hnone h

/-- Whether or not a registration is refused, its provider comes after all others. -/
theorem provider?_registered (hfamily : family ≠ "") (r : Registry) (p : Provider) :
    (r.registered p).provider? family = (r.provider? family).or ([p].find? fun q => q.family == family) := by
  rw [registered_eq]
  split
  · rename_i hold
    by_cases hp : p.family = family
    · rw [hp, or_iff_right hfamily] at hold
      obtain ⟨q, hq⟩ := exists_provider hold
      rw [hq, Option.some_or]
    · rw [List.find?_cons_of_neg (by simpa using hp), List.find?_nil, Option.or_none]
  · exact List.find?_append

/-- Families stay claimed once, whatever providers are offered. -/
theorem Distinct.registerAll (h : r.Distinct) (ps : List Provider) : (r.registerAll ps).Distinct := by
  induction ps generalizing r with
  | nil => exact h
  | cons p ps ih => exact ih (h.registered p)

private theorem Origin.distinct (o : Origin) : o.registry.Distinct := by
  cases o with
  | empty => exact ⟨List.not_mem_nil, List.nodup_nil⟩
  | standard => exact ⟨by decide, by decide⟩

/-- The provider of a family is the first one offered for it. -/
theorem provider?_registerAll (hfamily : family ≠ "") (r : Registry) (ps : List Provider) :
    (r.registerAll ps).provider? family = (r.provider? family).or (ps.find? fun q => q.family == family) := by
  induction ps generalizing r with
  | nil => exact Option.or_none.symm
  | cons p ps ih =>
    have hstep : (r.registerAll (p :: ps)).provider? family = ((r.registered p).registerAll ps).provider? family := rfl
    rw [hstep, ih, provider?_registered hfamily, Option.or_assoc, ← List.find?_append, List.singleton_append]

private theorem mem_registerAll_iff : p ∈ (start.registerAll ps).providers ↔ Claims start ps p := by
  induction ps generalizing start with
  | nil =>
    refine ⟨.kept, fun h => ?_⟩
    cases h with
    | kept hp => exact hp
    | registration before after hps _ => simp at hps
  | cons q ps ih =>
    have hstep : p ∈ (start.registerAll (q :: ps)).providers ↔ Claims (start.registered q) ps p := ih
    rw [hstep]
    constructor
    · intro h
      cases h with
      | kept hp =>
        -- it was there at the start, or came with the first registration
        rcases mem_registered_iff.1 hp with hp | ⟨rfl, hok⟩
        · exact .kept hp
        · exact .registration [] ps rfl hok
      | registration before after hps hok =>
        subst hps
        exact .registration (q :: before) after rfl hok
    · intro h
      cases h with
      | kept hp => exact .kept (mem_registered_iff.2 (.inl hp))
      | registration before after hps hok =>
        cases before with
        | nil =>
          cases hps
          exact .kept (mem_registered_iff.2 (.inr ⟨rfl, hok⟩))
        | cons _ before =>
          cases hps
          exact .registration before after rfl hok

private theorem provider?_eq_some_iff (h : r.families.Nodup) :
    r.provider? family = some p ↔ p ∈ r.providers ∧ p.family = family := by
  constructor
  · intro hp
    exact ⟨List.mem_of_find?_eq_some hp, by simpa using List.find?_some hp⟩
  · rintro ⟨hp, rfl⟩
    obtain ⟨q, hq⟩ := exists_provider (List.mem_map.2 ⟨p, hp, rfl⟩)
    have hsame : q.family = p.family := by simpa using List.find?_some hq
    rw [hq, List.inj_on_of_nodup_map h (List.mem_of_find?_eq_some hq) hp hsame]

/-- Where families are claimed once, no second provider is found beside the first. -/
theorem filter_eq_provider? (h : r.families.Nodup) (family : String) :
    r.providers.filter (fun p => p.family == family) = (r.provider? family).toList := by
  obtain ⟨l⟩ := r
  change (l.map (·.family)).Nodup at h
  change l.filter _ = (l.find? _).toList
  induction l with
  | nil => rfl
  | cons p l ih =>
    obtain ⟨hfirst, hrest⟩ := List.nodup_cons.1 h
    by_cases hp : p.family = family
    · have hnone : l.filter (fun p => p.family == family) = [] := by
        refine List.filter_eq_nil_iff.2 fun q hq hfamily => hfirst (List.mem_map.2 ⟨q, hq, ?_⟩)
        exact (eq_of_beq hfamily).trans hp.symm
      rw [List.filter_cons_of_pos (by simpa using hp), List.find?_cons_of_pos (by simpa using hp), hnone]
      rfl
    · rw [List.filter_cons_of_neg (by simpa using hp), List.find?_cons_of_neg (by simpa using hp), ih hrest]

private theorem resolve_eq (h : r.families.Nodup) (family name : String) :
    r.resolve family name =
      match r.provider? family with
      | none => .error (.family family)
      | some p =>
        match p.find? name with
        | some v => .ok v
        | none => .error (.unknownVariable family name) := by
  rw [resolve, filter_eq_provider? h]
  cases r.provider? family with
  | none => rfl
  | some p => rfl

/-- What is resolved is of the family and has the name asked for, in every registry. -/
theorem of_resolve_eq_ok (h : r.resolve family name = .ok v) : v.family = family ∧ v.name = name := by
  rw [resolve] at h
  split at h
  · rename_i p hfilter
    have hp : p ∈ r.providers.filter fun p => p.family == family := hfilter ▸ List.mem_singleton_self p
    have hfamily : p.family = family := by simpa using (List.mem_filter.1 hp).2
    split at h
    · rename_i w hw
      cases h
      exact hfamily ▸ Provider.of_find?_eq_some hw
    · cases h
  · cases h

private theorem resolve_eq_ok_iff (h : r.families.Nodup) :
    r.resolve family name = .ok v ↔ ∃ p, (p ∈ r.providers ∧ p.family = family) ∧ p.find? name = some v := by
  simp only [← provider?_eq_some_iff h, resolve_eq h]
  cases r.provider? family with
  | none => simp
  | some p => cases hp : p.find? name <;> simp [hp]

private theorem resolve_eq_error_iff (h : r.families.Nodup) :
    r.resolve family name = .error f ↔
      (f = .family family ∧ ¬ family ∈ r.families) ∨
        (f = .unknownVariable family name ∧ ∃ p, (p ∈ r.providers ∧ p.family = family) ∧ p.find? name = none) := by
  simp only [← provider?_eq_some_iff h, ← provider?_eq_none_iff, resolve_eq h]
  cases r.provider? family with
  | none => simp [eq_comm (a := f)]
  | some p => cases hp : p.find? name <;> simp [hp, eq_comm (a := f)]

/-- What a claimed family resolves stays as it is, whatever is registered later. -/
theorem resolve_registerAll (h : r.Distinct) (hclaimed : family ∈ r.families) (more : List Provider) (name : String) :
    (r.registerAll more).resolve family name = r.resolve family name := by
  have hfamily : family ≠ "" := fun he => h.named (he ▸ hclaimed)
  obtain ⟨p, hp⟩ := exists_provider hclaimed
  rw [resolve_eq (h.registerAll more).nodup, resolve_eq h.nodup, provider?_registerAll hfamily, hp, Option.some_or]

private theorem claims_iff_first (o : Origin) :
    Claims o.registry ps p ∧ p.family = family ↔
      family ≠ "" ∧ (o.registry.providers ++ ps).find? (fun q => q.family == family) = some p := by
  have hdistinct := o.distinct.registerAll ps
  by_cases hfamily : family = ""
  · refine iff_of_false (fun hp => hdistinct.named ?_) fun hp => hp.1 hfamily
    exact List.mem_map.2 ⟨p, mem_registerAll_iff.2 hp.1, hp.2.trans hfamily⟩
  · rw [and_iff_right hfamily, ← mem_registerAll_iff, ← provider?_eq_some_iff hdistinct.nodup,
      provider?_registerAll hfamily, List.find?_append, provider?]

/-- After any registrations, refused or not: the claimed families have names, each its own; the provider of a family is
the one whose registration first claimed it, which is the first that was offered; a family resolves just the names that
its provider knows, to variables of that family and name, and fails for want of a provider just when it is not claimed;
and whatever is registered later, claimed families resolve as before. -/
theorem one_provider_per_family (o : Origin) (ps : List Provider) :
    (∀ family ∈ (o.registry.registerAll ps).families, family ≠ "") ∧ (o.registry.registerAll ps).families.Nodup ∧
    (∀ family, family ∈ (o.registry.registerAll ps).families ↔ ∃ p, Claims o.registry ps p ∧ p.family = family) ∧
    (∀ family p, Claims o.registry ps p ∧ p.family = family ↔
      family ≠ "" ∧ (o.registry.providers ++ ps).find? (fun q => q.family == family) = some p) ∧
    (∀ family name v, (o.registry.registerAll ps).resolve family name = .ok v ↔
      ∃ p, (Claims o.registry ps p ∧ p.family = family) ∧ p.find? name = some v) ∧
    (∀ family name v, (o.registry.registerAll ps).resolve family name = .ok v → v.family = family ∧ v.name = name) ∧
    (∀ family name f, (o.registry.registerAll ps).resolve family name = .error f ↔
      (f = .family family ∧ ¬ family ∈ (o.registry.registerAll ps).families) ∨
        (f = .unknownVariable family name ∧
          ∃ p, (Claims o.registry ps p ∧ p.family = family) ∧ p.find? name = none)) ∧
    (∀ more, ∀ family ∈ (o.registry.registerAll ps).families, ∀ name,
      ((o.registry.registerAll ps).registerAll more).resolve family name =
        (o.registry.registerAll ps).resolve family name) := by
  have hdistinct := o.distinct.registerAll ps
  refine ⟨fun family hfamily he => hdistinct.named (he ▸ hfamily), hdistinct.nodup, fun family => ?_,
    fun family p => claims_iff_first o, fun family name v => ?_, fun family name v => of_resolve_eq_ok,
    fun family name f => ?_, fun more family hfamily name => resolve_registerAll hdistinct hfamily more name⟩
  · simp only [families, List.mem_map, mem_registerAll_iff]
  · simp only [resolve_eq_ok_iff hdistinct.nodup, mem_registerAll_iff]
  · simp only [resolve_eq_error_iff hdistinct.nodup, mem_registerAll_iff]

/-- The family of storages has one provider: another one is refused, and a second one of the built-in family too. -/
theorem storage_claimed_once :
    let soc : Provider := .named "storage" (SortedSet.ofList ["soc"])
    let other : Provider := .named "storage" (SortedSet.ofList ["level"])
    let r := Registry.standard.registerAll [soc, other]
    "storage" ∈ r.families ∧ r.resolve "storage" "soc" = .ok (.extension "storage" "soc") ∧
      (r.registerAll [.builtin, other]).resolve "storage" "level" = .error (.unknownVariable "storage" "level") := by
  intro soc other r
  have hclaimed : "storage" ∈ r.families := by decide +kernel
  have hclaims : Claims .standard [soc, other] soc ∧ soc.family = "storage" := ⟨.registration [] [other] rfl rfl, rfl⟩
  obtain ⟨_, _, _, _, hresolves, _, hfails, hlater⟩ := one_provider_per_family .standard [soc, other]
  have hlevel := (hfails "storage" "level" _).2 (.inr ⟨rfl, soc, hclaims, by decide +kernel⟩)
  exact ⟨hclaimed, (hresolves "storage" "soc" _).2 ⟨soc, hclaims, by decide +kernel⟩,
    (hlater [.builtin, other] "storage" hclaimed "level").trans hlevel⟩

end Registry
end GridSeries
