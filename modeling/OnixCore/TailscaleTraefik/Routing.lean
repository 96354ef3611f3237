import OnixCore.Lib.AttrSet
import OnixCore.ModuleSchema.Value

/-!
# The routes of the tailscale-traefik module

Each service has a router and a backend under its subdomain, and its subdomain goes to the private
or to the public DNS updater. The host's NixOS configuration, in which the ports of services that
name none are looked up, and `builtins.toString` are parameters. `extraRouterConfig`,
`extraServiceConfig` and `extraDynamicConfig` are empty, and what does not concern the routes is left
out.
-/

namespace OnixCore.TailscaleTraefik

open AttrSet ModuleSchema

structure Service where
  port : Option Nat
  portPath : Option String
  subdomain : Option String
  middlewares : List String
  isPublic : Bool

structure Settings where
  domain : String
  email : String
  services : List (String × Service)
  additionalSubdomains : List String
  traefikDashboard : Bool
  dnsResolvers : List String

/-- Each assertion with its message. -/
def assertions (cfg : Settings) : List (Bool × String) :=
  [(cfg.domain != "", "tailscale-traefik: 'domain' must be non-empty"),
    (cfg.email != "", "tailscale-traefik: 'email' must be non-empty"),
    (cfg.dnsResolvers != [], "tailscale-traefik: 'dnsResolvers' must contain at least one resolver")]

def resolveSubdomain (entry : String × Service) : String := entry.2.subdomain.getD entry.1

def publicSubdomainsList (cfg : Settings) : List String :=
  (cfg.services.filter (·.2.isPublic)).map resolveSubdomain

def privateSubdomainsList (cfg : Settings) : List String :=
  (cfg.services.filter (!·.2.isPublic)).map resolveSubdomain ++ cfg.additionalSubdomains
    ++ (if cfg.traefikDashboard then ["traefik"] else [])

def host (cfg : Settings) (subdomain : String) : String := subdomain ++ "." ++ cfg.domain

structure Router where
  rule : String
  service : String
  entryPoints : List String
  certResolver : String
  middlewares : List String
deriving DecidableEq

def hostRule (host : String) : String := "Host(\x60" ++ host ++ "\x60)"

def serviceRouters (cfg : Settings) : List (String × Router) :=
  listToAttrs (cfg.services.map fun entry =>
    let subdomain := resolveSubdomain entry
    (subdomain,
      { rule := hostRule (host cfg subdomain), service := subdomain, entryPoints := ["websecure"]
        certResolver := "letsencrypt", middlewares := entry.2.middlewares }))

def dashboardRouter (cfg : Settings) : List (String × Router) :=
  if cfg.traefikDashboard then
    [("traefik-dashboard",
      { rule := hostRule (host cfg "traefik"), service := "api@internal"
        entryPoints := ["websecure"], certResolver := "letsencrypt", middlewares := [] })]
  else []

/-- What a path of attributes leads to, or another value where it ends early. -/
def attrOr (default : Value) : Value → List String → Value
  | obj, [] => obj
  | .record fields, part :: parts => match fields.lookup part with
    | some obj => attrOr default obj parts
    | none => default
  | _, _ :: _ => default

section Ports

variable (config : Value)

def getConfigValue (path : String) : Value :=
  attrOr .null config ((path.toList.splitOn '.').map String.ofList)

def portDetectors : List (String × Value) :=
  [("homepage", attrOr .null config ["services", "homepage-dashboard", "listenPort"]),
    ("grafana", attrOr (attrOr .null config ["services", "grafana", "port"]) config
      ["services", "grafana", "settings", "server", "http_port"]),
    ("vaultwarden", attrOr .null config ["services", "vaultwarden", "config", "rocketPort"]),
    ("prometheus", attrOr .null config ["services", "prometheus", "port"]),
    ("loki", attrOr .null config
      ["services", "loki", "configuration", "server", "http_listen_port"]),
    ("gitea", attrOr .null config ["services", "gitea", "settings", "server", "HTTP_PORT"]),
    ("nextcloud", .num 80),
    ("jellyfin", attrOr (.num 8096) config ["services", "jellyfin", "port"])]

def detectedPort (entry : String × Service) : Value :=
  match entry.2.portPath with
  | some path => getConfigValue config path
  | none => ((portDetectors config).lookup entry.1).getD .null

def actualPort (entry : String × Service) : Except String Value :=
  match entry.2.port with
  | some port => .ok (.num port)
  | none => match detectedPort config entry with
    | .null => .error ("Cannot determine port for service '" ++ entry.1
        ++ "'. Please specify the 'port' option or add a port detector.")
    | port => .ok port

end Ports

/-- A backend with one server. -/
structure Backend where
  url : String
deriving DecidableEq

section Backends

variable (toText : Value → Except String String) (config : Value) (cfg : Settings)

def backend (entry : String × Service) : Except String Backend := do
  let port ← actualPort config entry
  let text ← toText port
  return { url := "http://localhost:" ++ text }

def serviceBackends : List (String × Except String Backend) :=
  listToAttrs (cfg.services.map fun entry =>
    (resolveSubdomain entry, backend toText config entry))

/-- `dynamicConfigOptions.http`, without the middlewares -/
structure DynamicConfig where
  routers : List (String × Router)
  services : List (String × Backend)

/-- The dynamic configuration as the file is written from it. -/
def dynamicConfig : Except String DynamicConfig := do
  let services ← force (serviceBackends toText config cfg)
  return { routers := update (serviceRouters cfg) (dashboardRouter cfg), services := services }

end Backends

end OnixCore.TailscaleTraefik
