import OnixCore.TailscaleTraefik.Routing

/-!
# The routes reach every service

Routers and backends are sets under the services' subdomains, and the dashboard's router goes over
them. No service is lost, and none shares a host or stands with both DNS updaters, exactly when the
subdomains are all different, none is the name of the dashboard's router, and no public one is among
the names that are private for another reason.
-/

namespace OnixCore.TailscaleTraefik

open AttrSet ModuleSchema

variable (toText : Value → Except String String) (config : Value) (cfg : Settings)

/-- A router for the service's host leads to a backend with the service's own port. -/
def Routed (dynamic : DynamicConfig) (entry : String × Service) : Prop :=
  ∃ router ∈ dynamic.routers.map Prod.snd,
    router.rule = hostRule (host cfg (resolveSubdomain entry))
      ∧ ∃ target, dynamic.services.lookup router.service = some target
        ∧ backend toText config entry = .ok target

/-- What the module does for its services. -/
structure LosesNoService (dynamic : DynamicConfig) : Prop where
  routed : ∀ entry ∈ cfg.services, Routed toText config cfg dynamic entry
  hosts_distinct : (cfg.services.map fun entry => host cfg (resolveSubdomain entry)).Nodup
  updaters_disjoint : ((privateSubdomainsList cfg).map (host cfg)).Disjoint
    ((publicSubdomainsList cfg).map (host cfg))

/-- The subdomains collide neither with each other nor with the dashboard and the additional
subdomains. -/
structure NoCollision : Prop where
  distinct : (cfg.services.map resolveSubdomain).Nodup
  router_free : cfg.traefikDashboard = true →
    ∀ entry ∈ cfg.services, resolveSubdomain entry ≠ "traefik-dashboard"
  public_free : ∀ entry ∈ cfg.services, entry.2.isPublic = true →
    resolveSubdomain entry ∉ cfg.additionalSubdomains
      ∧ (cfg.traefikDashboard = true → resolveSubdomain entry ≠ "traefik")

variable {toText config cfg}

theorem host_injective : Function.Injective (host cfg) := by
  intro a b h
  exact (String.append_left_inj _).1 ((String.append_left_inj _).1 h)

theorem hostRule_inj {a b : String} : hostRule (host cfg a) = hostRule (host cfg b) ↔ a = b := by
  constructor
  · intro h
    exact host_injective ((String.append_right_inj _).1 ((String.append_left_inj _).1 h))
  · rintro rfl
    rfl

/-- The routers are the services' own and the dashboard's, which goes first. -/
theorem mem_routers {router : Router}
    (h : router ∈ (update (serviceRouters cfg) (dashboardRouter cfg)).map Prod.snd) :
    (∃ entry ∈ cfg.services, router.rule = hostRule (host cfg (resolveSubdomain entry))
        ∧ (cfg.traefikDashboard = true → resolveSubdomain entry ≠ "traefik-dashboard"))
      ∨ cfg.traefikDashboard = true ∧ router.rule = hostRule (host cfg "traefik") := by
  obtain ⟨⟨name, router⟩, hmem, rfl⟩ := List.mem_map.1 h
  rcases mem_update.1 hmem with ⟨hservice, hfree⟩ | hdashboard
  · obtain ⟨entry, hentry, heq⟩ := List.mem_map.1 (mem_of_mem_listToAttrs hservice)
    obtain ⟨rfl, rfl⟩ := Prod.mk.inj heq
    refine .inl ⟨entry, hentry, rfl, fun hdash hname => ?_⟩
    simp [dashboardRouter, hdash, hname] at hfree
  · unfold dashboardRouter at hdashboard
    split at hdashboard
    case isTrue hdash =>
      obtain ⟨rfl, rfl⟩ := Prod.mk.inj (List.mem_singleton.1 hdashboard)
      exact .inr ⟨hdash, rfl⟩
    case isFalse => cases hdashboard

theorem mem_private {subdomain : String} :
    subdomain ∈ privateSubdomainsList cfg
      ↔ (∃ entry ∈ cfg.services, entry.2.isPublic = false ∧ resolveSubdomain entry = subdomain)
        ∨ subdomain ∈ cfg.additionalSubdomains
        ∨ cfg.traefikDashboard = true ∧ subdomain = "traefik" := by
  unfold privateSubdomainsList
  rw [List.mem_append, List.mem_append, or_assoc]
  refine or_congr (by simp [and_assoc]) (or_congr_right ?_)
  split <;> simp_all

/-- Where the subdomains are all different, a public service meets only the private names that no
service has. -/
theorem updaters_disjoint_iff (hdistinct : (cfg.services.map resolveSubdomain).Nodup) :
    ((privateSubdomainsList cfg).map (host cfg)).Disjoint ((publicSubdomainsList cfg).map (host cfg))
      ↔ ∀ entry ∈ cfg.services, entry.2.isPublic = true →
        resolveSubdomain entry ∉ cfg.additionalSubdomains
          ∧ (cfg.traefikDashboard = true → resolveSubdomain entry ≠ "traefik") := by
  have hpublic : ∀ {entry}, entry ∈ cfg.services → entry.2.isPublic = true →
      host cfg (resolveSubdomain entry) ∈ (publicSubdomainsList cfg).map (host cfg) :=
    fun hentry h => List.mem_map_of_mem (List.mem_map_of_mem (List.mem_filter.2 ⟨hentry, h⟩))
  constructor
  · intro h entry hentry hent
    refine ⟨fun hmem => ?_, fun hdash hname => ?_⟩
    · exact h (List.mem_map_of_mem (mem_private.2 (.inr (.inl hmem)))) (hpublic hentry hent)
    · exact h (List.mem_map_of_mem (mem_private.2 (.inr (.inr ⟨hdash, hname⟩))))
        (hpublic hentry hent)
  · intro h name hleft hright
    obtain ⟨subdomain, hprivate, rfl⟩ := List.mem_map.1 hleft
    obtain ⟨other, hother, hhost⟩ := List.mem_map.1 hright
    obtain rfl := host_injective hhost
    obtain ⟨entry, hentry, rfl⟩ := List.mem_map.1 hother
    obtain ⟨hentry, hent⟩ := List.mem_filter.1 hentry
    obtain ⟨hadditional, hdashboard⟩ := h entry hentry hent
    rcases mem_private.1 hprivate with ⟨service, hservice, hnot, heq⟩ | hmem | ⟨hdash, hname⟩
    · obtain rfl := List.inj_on_of_nodup_map hdistinct hservice hentry heq
      exact absurd hent (by simp [hnot])
    · exact hadditional hmem
    · exact hdashboard hdash hname

/-- A router that the dashboard's does not replace leads to its service's own backend. -/
theorem routed_of_nodup {dynamic : DynamicConfig}
    (hdynamic : dynamicConfig toText config cfg = .ok dynamic)
    (hdistinct : (cfg.services.map resolveSubdomain).Nodup) {entry : String × Service}
    (hentry : entry ∈ cfg.services)
    (hfree : cfg.traefikDashboard = true → resolveSubdomain entry ≠ "traefik-dashboard") :
    Routed toText config cfg dynamic entry := by
  simp only [dynamicConfig, bind_eq_ok, pure_eq_ok] at hdynamic
  obtain ⟨services, hforce, rfl⟩ := hdynamic
  have hlookup : (serviceBackends toText config cfg).lookup (resolveSubdomain entry)
      = some (backend toText config entry) := by
    rw [serviceBackends, listToAttrs_of_nodup (by simpa [Function.comp_def] using hdistinct)]
    exact lookup_of_mem (by simpa [Function.comp_def] using hdistinct)
      (List.mem_map.2 ⟨entry, hentry, rfl⟩)
  obtain ⟨target, htarget, hservices⟩ := lookup_force hforce hlookup
  have hrouter : ∃ router, (resolveSubdomain entry, router) ∈ serviceRouters cfg
      ∧ router.rule = hostRule (host cfg (resolveSubdomain entry))
      ∧ router.service = resolveSubdomain entry := by
    rw [serviceRouters, listToAttrs_of_nodup (by simpa [Function.comp_def] using hdistinct)]
    exact ⟨_, List.mem_map.2 ⟨entry, hentry, rfl⟩, rfl, rfl⟩
  have hkept : (dashboardRouter cfg).lookup (resolveSubdomain entry) = none := by
    unfold dashboardRouter
    split
    case isTrue hdash =>
      rw [List.lookup_cons, beq_eq_false_iff_ne.2 (hfree hdash)]
      rfl
    case isFalse => rfl
  obtain ⟨router, hmem, hrule, hservice⟩ := hrouter
  exact ⟨router, List.mem_map.2 ⟨_, mem_update.2 (.inl ⟨hmem, hkept⟩), rfl⟩, hrule, target,
    hservice ▸ hservices, htarget⟩

/-- A configuration that evaluates loses no service exactly when no two names collide. -/
theorem losesNoService_iff {dynamic : DynamicConfig}
    (hdynamic : dynamicConfig toText config cfg = .ok dynamic) :
    LosesNoService toText config cfg dynamic ↔ NoCollision cfg := by
  constructor
  · rintro ⟨hrouted, hhosts, hupdaters⟩
    have hdistinct : (cfg.services.map resolveSubdomain).Nodup := by
      rw [← List.nodup_map_iff (@host_injective cfg), List.map_map]
      exact hhosts
    refine ⟨hdistinct, fun hdash entry hentry hname => ?_,
      (updaters_disjoint_iff hdistinct).1 hupdaters⟩
    -- the dashboard's router stands where the service's own was
    obtain ⟨router, hrouter, hrule, -⟩ := hrouted entry hentry
    simp only [dynamicConfig, bind_eq_ok, pure_eq_ok] at hdynamic
    obtain ⟨services, -, rfl⟩ := hdynamic
    rcases mem_routers hrouter with ⟨other, -, hother, hne⟩ | ⟨-, hdashboard⟩
    · rw [hrule, hostRule_inj] at hother
      exact hne hdash (hother.symm.trans hname)
    · rw [hrule, hostRule_inj, hname] at hdashboard
      exact absurd hdashboard (by decide)
  · rintro ⟨hdistinct, hrouter, hpublic⟩
    refine ⟨fun entry hentry => routed_of_nodup hdynamic hdistinct hentry
      fun hdash => hrouter hdash entry hentry, ?_, (updaters_disjoint_iff hdistinct).2 hpublic⟩
    have hhosts := (List.nodup_map_iff (@host_injective cfg)).2 hdistinct
    rwa [List.map_map] at hhosts

/-- `builtins.toString` of an integer -/
def integerText : Value → Except String String
  | .num q => .ok (toString q.num)
  | _ => .error "not an integer"

/-- A service with a port of its own and a name it may choose. -/
def serviceOn (port : Nat) (subdomain : Option String) : Service :=
  { port := some port, portPath := none, subdomain := subdomain, middlewares := []
    isPublic := false }

def settingsWith (services : List (String × Service)) : Settings :=
  { domain := "onix.computer", email := "admin@onix.computer", services := services
    additionalSubdomains := [], traefikDashboard := true, dnsResolvers := ["1.1.1.1:53"] }

theorem distinctServices_routed : ∃ dynamic,
    LosesNoService integerText (.record [])
      (settingsWith [("grafana", serviceOn 3000 none), ("vault", serviceOn 8080 none)]) dynamic :=
  ⟨_, (losesNoService_iff rfl).2 ⟨by decide, by decide, by decide⟩⟩

/-- Two services of one name: the second has no route, and the module's assertions hold. -/
theorem override_loses_service :
    ∃ dynamic, dynamicConfig integerText (.record [])
        (settingsWith [("grafana", serviceOn 3000 none), ("vault", serviceOn 8080 (some "grafana"))])
        = .ok dynamic
      ∧ (∀ check ∈ assertions (settingsWith [("grafana", serviceOn 3000 none),
          ("vault", serviceOn 8080 (some "grafana"))]), check.1 = true)
      ∧ ¬ LosesNoService integerText (.record []) (settingsWith [("grafana", serviceOn 3000 none),
        ("vault", serviceOn 8080 (some "grafana"))]) dynamic := by
  refine ⟨_, rfl, by decide, fun h => ?_⟩
  exact absurd h.hosts_distinct (by decide)

end OnixCore.TailscaleTraefik
