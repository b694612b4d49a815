import Mathlib.Data.List.Induction
import WebUiBoot.Lib.Trace

/-!
# The lease

What `run_network` in `src/main.rs` does to the interface when the DHCP socket reports a lease.

* `Iface` / `Iface.Lawful` — the interface, by its calls, and what they do;
* `processDhcp`, `lease` — an iteration, and the machine that emits the addresses shown to the user;
* `lease_run` — the interface after any sequence of events;
* `interface_follows_lease_iff` — when it is what the latest event says;
* `lost_lease_is_kept` — a lease that is lost.
-/

namespace WebUiBoot.Net

open WebUiBoot.Trace

structure Ipv4Address where
  a : UInt8
  b : UInt8
  c : UInt8
  d : UInt8
  deriving DecidableEq

structure Ipv4Cidr where
  address : Ipv4Address
  prefixLen : UInt8
  deriving DecidableEq

/-- `dhcpv4::Config`. -/
structure DhcpConfig where
  address : Ipv4Cidr
  router : Option Ipv4Address
  deriving DecidableEq

inductive DhcpEvent
  | configured (config : DhcpConfig)
  | deconfigured
  deriving DecidableEq

/-- The interface: its states, and the calls that are made. -/
structure Iface (ι : Type) where
  new : ι
  ipAddrs : ι → List Ipv4Cidr
  defaultRoute : ι → Option Ipv4Address
  updateIpAddrs : (List Ipv4Cidr → List Ipv4Cidr) → ι → ι
  addDefaultIpv4Route : Ipv4Address → ι → ι

/-- What is relied on.  A default route replaces the one before it, and stays. -/
structure Iface.Lawful {ι : Type} (iface : Iface ι) : Prop where
  new : iface.ipAddrs iface.new = [] ∧ iface.defaultRoute iface.new = none
  updateIpAddrs : ∀ f s, iface.ipAddrs (iface.updateIpAddrs f s) = f (iface.ipAddrs s)
    ∧ iface.defaultRoute (iface.updateIpAddrs f s) = iface.defaultRoute s
  addDefaultIpv4Route : ∀ router s,
    iface.defaultRoute (iface.addDefaultIpv4Route router s) = some router
      ∧ iface.ipAddrs (iface.addDefaultIpv4Route router s) = iface.ipAddrs s

/-- The initial static address. -/
def staticIp : Ipv4Cidr := ⟨⟨192, 168, 1, 30⟩, 24⟩

variable {ι : Type}

/-- The interface when the network task starts. -/
def setupIface (iface : Iface ι) : ι := iface.updateIpAddrs (· ++ [staticIp]) iface.new

/-- The part of an iteration that processes DHCP: the interface, and `got_ip`. -/
def processDhcp (iface : Iface ι) (s : ι) (dhcpEvent : Option DhcpEvent) : ι × Option Ipv4Cidr :=
  match dhcpEvent with
  | some (.configured config) =>
      let s := iface.updateIpAddrs (fun _ => [config.address]) s
      let s := match config.router with
        | some router => iface.addDefaultIpv4Route router s
        | none => s
      (s, some config.address)
  | _ => (s, none)

/-- An iteration to a step.  `update_slint_ip` is called with what is emitted. -/
def lease (iface : Iface ι) : Machine ι (Option DhcpEvent) Ipv4Cidr :=
  ⟨fun s dhcpEvent => ((processDhcp iface s dhcpEvent).1, (processDhcp iface s dhcpEvent).2.toList)⟩

/-! ### The interface after some events -/

def DhcpEvent.address : DhcpEvent → Option Ipv4Cidr
  | .configured config => some config.address
  | .deconfigured => none

def DhcpEvent.router : DhcpEvent → Option Ipv4Address
  | .configured config => config.router
  | .deconfigured => none

/-- The events of some iterations. -/
def eventsOf (inputs : List (Option DhcpEvent)) : List DhcpEvent := inputs.filterMap id

/-- The address that was leased last, or those from before. -/
def addressesAfter (initial : List Ipv4Cidr) (events : List DhcpEvent) : List Ipv4Cidr :=
  ((events.filterMap DhcpEvent.address).getLast?.map fun address => [address]).getD initial

/-- The router that was named last, or the one from before. -/
def routeAfter (initial : Option Ipv4Address) (events : List DhcpEvent) : Option Ipv4Address :=
  (events.filterMap DhcpEvent.router).getLast?.or initial

theorem eventsOf_concat (inputs : List (Option DhcpEvent)) (input : Option DhcpEvent) :
    eventsOf (inputs ++ [input]) = eventsOf inputs ++ input.toList := by
  rw [eventsOf, List.filterMap_append]
  cases input with
  | none => rfl
  | some event => rfl

/-- **One lease.**  The address is replaced; the route is, if the lease names a router. -/
theorem processDhcp_configured {iface : Iface ι} (h : iface.Lawful) (s : ι) (config : DhcpConfig) :
    iface.ipAddrs (processDhcp iface s (some (.configured config))).1 = [config.address]
      ∧ iface.defaultRoute (processDhcp iface s (some (.configured config))).1
          = config.router.or (iface.defaultRoute s) := by
  obtain ⟨haddrs, hroute⟩ := h.updateIpAddrs (fun _ => [config.address]) s
  cases hrouter : config.router with
  | none =>
      simp only [processDhcp, hrouter]
      exact ⟨haddrs, hroute⟩
  | some router =>
      obtain ⟨hroute', haddrs'⟩ := h.addDefaultIpv4Route router
        (iface.updateIpAddrs (fun _ => [config.address]) s)
      simp only [processDhcp, hrouter]
      exact ⟨haddrs'.trans haddrs, hroute'⟩

theorem addressesAfter_configured (initial : List Ipv4Cidr) (events : List DhcpEvent)
    (config : DhcpConfig) :
    addressesAfter initial (events ++ [.configured config]) = [config.address] := by
  rw [addressesAfter, List.filterMap_append,
    show [DhcpEvent.configured config].filterMap DhcpEvent.address = [config.address] from rfl,
    List.getLast?_concat]
  rfl

theorem routeAfter_configured (initial : Option Ipv4Address) (events : List DhcpEvent)
    (config : DhcpConfig) :
    routeAfter initial (events ++ [.configured config])
      = config.router.or (routeAfter initial events) := by
  unfold routeAfter
  rw [List.filterMap_append]
  cases hrouter : config.router with
  | none =>
      rw [List.filterMap_cons_none (show DhcpEvent.router (.configured config) = none from hrouter),
        List.filterMap_nil, List.append_nil, Option.none_or]
  | some router =>
      rw [List.filterMap_cons_some (show DhcpEvent.router (.configured config) = some router
        from hrouter),
        List.filterMap_nil, List.getLast?_concat]
      rfl

/-- `Deconfigured` is not matched. -/
theorem after_deconfigured (initial : List Ipv4Cidr) (route : Option Ipv4Address)
    (events : List DhcpEvent) :
    addressesAfter initial (events ++ [.deconfigured]) = addressesAfter initial events
      ∧ routeAfter route (events ++ [.deconfigured]) = routeAfter route events := by
  unfold addressesAfter routeAfter
  rw [List.filterMap_append, List.filterMap_append,
    show [DhcpEvent.deconfigured].filterMap DhcpEvent.address = [] from rfl,
    show [DhcpEvent.deconfigured].filterMap DhcpEvent.router = [] from rfl,
    List.append_nil, List.append_nil]
  exact ⟨rfl, rfl⟩

/-- **The interface.**  It has the address of the last lease, and the router of the last lease that
named one. -/
theorem lease_run {iface : Iface ι} (h : iface.Lawful) (s : ι) (inputs : List (Option DhcpEvent)) :
    iface.ipAddrs ((lease iface).run s inputs).1
        = addressesAfter (iface.ipAddrs s) (eventsOf inputs)
      ∧ iface.defaultRoute ((lease iface).run s inputs).1
          = routeAfter (iface.defaultRoute s) (eventsOf inputs) := by
  induction inputs using List.reverseRecOn with
  | nil => exact ⟨rfl, rfl⟩
  | append_singleton inputs input ih =>
      rw [Machine.run_append, Machine.run_singleton, eventsOf_concat]
      generalize ((lease iface).run s inputs).1 = t at ih
      show iface.ipAddrs (processDhcp iface t input).1 = _
        ∧ iface.defaultRoute (processDhcp iface t input).1 = _
      cases input with
      | none =>
          rw [Option.toList_none, List.append_nil]
          exact ih
      | some event =>
          rw [Option.toList_some]
          cases event with
          | deconfigured =>
              obtain ⟨haddrs, hroute⟩ := after_deconfigured (iface.ipAddrs s) (iface.defaultRoute s)
                (eventsOf inputs)
              rw [haddrs, hroute]
              exact ih
          | configured config =>
              rw [addressesAfter_configured, routeAfter_configured, ← ih.2]
              exact processDhcp_configured h t config

/-! ### The latest event -/

/-- The interface holds exactly what the event says. -/
def DhcpEvent.Holds (iface : Iface ι) (s : ι) : DhcpEvent → Prop
  | .configured config => iface.ipAddrs s = [config.address] ∧ iface.defaultRoute s = config.router
  | .deconfigured => iface.ipAddrs s = [] ∧ iface.defaultRoute s = none

/-- A lease has been there. -/
def Leased (events : List DhcpEvent) : Prop := ∃ config, .configured config ∈ events

/-- **The interface follows the latest lease**: from the first lease on it holds, at every point,
what the latest event says. -/
def FollowsLease (iface : Iface ι) (inputs : List (Option DhcpEvent)) : Prop :=
  ∀ js, js <+: inputs → ∀ event, (eventsOf js).getLast? = some event → Leased (eventsOf js) →
    event.Holds iface ((lease iface).run (setupIface iface) js).1

/-- What the earlier event has set is not what the later one says, and stays. -/
def Stale (event later : DhcpEvent) : Prop :=
  (event.address ≠ none ∧ later = .deconfigured) ∨ (event.router ≠ none ∧ later.router = none)

theorem routeAfter_none_iff (events : List DhcpEvent) :
    routeAfter none events = none ↔ ∀ event ∈ events, event.router = none := by
  rw [routeAfter, Option.or_none, List.getLast?_eq_none_iff, List.filterMap_eq_nil_iff]

theorem addressesAfter_ne_nil (events : List DhcpEvent) :
    addressesAfter [staticIp] events ≠ [] := by
  rw [addressesAfter]
  cases (events.filterMap DhcpEvent.address).getLast? with
  | none => exact List.cons_ne_nil _ _
  | some address => exact List.cons_ne_nil _ _

/-- **One event.**  What it says is what the interface holds, exactly when nothing before it has
become stale. -/
theorem holds_after_event {iface : Iface ι} {s : ι} {events : List DhcpEvent} {event : DhcpEvent}
    (haddrs : iface.ipAddrs s = addressesAfter [staticIp] (events ++ [event]))
    (hroute : iface.defaultRoute s = routeAfter none (events ++ [event])) :
    (Leased (events ++ [event]) → event.Holds iface s)
      ↔ ∀ earlier ∈ events, ¬ Stale earlier event := by
  cases event with
  | configured config =>
      rw [addressesAfter_configured] at haddrs
      rw [routeAfter_configured] at hroute
      have hleased : Leased (events ++ [.configured config]) :=
        ⟨config, List.mem_append_right _ List.mem_cons_self⟩
      have hholds : DhcpEvent.Holds iface s (.configured config)
          ↔ config.router.or (routeAfter none events) = config.router := by
        rw [← hroute]
        exact and_iff_right haddrs
      rw [forall_prop_of_true hleased, hholds]
      cases hrouter : config.router with
      | some router =>
          refine iff_of_true rfl fun earlier _ hstale => ?_
          cases hstale with
          | inl h => exact absurd h.2 (by simp)
          | inr h => exact absurd (hrouter.symm.trans h.2) (by simp)
      | none =>
          rw [Option.none_or, routeAfter_none_iff]
          refine forall₂_congr fun earlier _ => ?_
          have hlater : DhcpEvent.router (.configured config) = none := hrouter
          simp [Stale, hlater]
  | deconfigured =>
      have hnot : ¬ DhcpEvent.Holds iface s .deconfigured := by
        intro hholds
        exact addressesAfter_ne_nil _ (haddrs.symm.trans hholds.1)
      have hleased : Leased (events ++ [.deconfigured]) ↔ Leased events := by
        simp [Leased]
      rw [imp_iff_not hnot, hleased]
      constructor
      · intro hnone earlier hmem hstale
        cases earlier with
        | configured config => exact hnone ⟨config, hmem⟩
        | deconfigured => simp [Stale, DhcpEvent.address, DhcpEvent.router] at hstale
      · intro hstale ⟨config, hmem⟩
        exact hstale _ hmem (Or.inl ⟨Option.some_ne_none _, rfl⟩)

/-- The interface when the network task starts. -/
theorem setupIface_spec {iface : Iface ι} (h : iface.Lawful) :
    iface.ipAddrs (setupIface iface) = [staticIp]
      ∧ iface.defaultRoute (setupIface iface) = none := by
  have hsetup := h.updateIpAddrs (· ++ [staticIp]) iface.new
  rw [h.new.1, h.new.2] at hsetup
  exact hsetup

/-- One more iteration. -/
theorem followsLease_concat (iface : Iface ι) (inputs : List (Option DhcpEvent))
    (input : Option DhcpEvent) :
    FollowsLease iface (inputs ++ [input]) ↔ FollowsLease iface inputs
      ∧ ∀ event, (eventsOf inputs ++ input.toList).getLast? = some event →
        Leased (eventsOf inputs ++ input.toList) →
        event.Holds iface ((lease iface).run (setupIface iface) (inputs ++ [input])).1 := by
  unfold FollowsLease
  rw [← eventsOf_concat]
  constructor
  · intro hall
    refine ⟨fun js hjs => hall js (hjs.trans (List.prefix_append _ _)), ?_⟩
    exact hall _ (List.prefix_refl _)
  · intro ⟨hall, hlast⟩ js hjs
    cases List.prefix_concat_iff.mp hjs with
    | inl hwhole =>
        rw [hwhole]
        exact hlast
    | inr hjs => exact hall js hjs

/-- **When the interface follows the lease.**  For every sequence of events: it does, exactly when
`Deconfigured` does not come after a lease, nor a lease without a router after one with a router. -/
theorem interface_follows_lease_iff (iface : Iface ι) (h : iface.Lawful)
    (inputs : List (Option DhcpEvent)) :
    FollowsLease iface inputs
      ↔ (eventsOf inputs).Pairwise fun earlier event => ¬ Stale earlier event := by
  induction inputs using List.reverseRecOn with
  | nil =>
      refine iff_of_true ?_ List.Pairwise.nil
      intro js hjs event hlast
      rw [List.prefix_nil.mp hjs] at hlast
      exact absurd hlast (by simp [eventsOf])
  | append_singleton inputs input ih =>
      rw [followsLease_concat, eventsOf_concat]
      cases input with
      | none =>
          rw [Option.toList_none, List.append_nil, ih]
          refine and_iff_left_of_imp fun hfresh => ?_
          rw [Machine.run_append, Machine.run_singleton]
          exact ih.mpr hfresh inputs (List.prefix_refl _)
      | some event =>
          have hrun := lease_run h (setupIface iface) (inputs ++ [some event])
          rw [(setupIface_spec h).1, (setupIface_spec h).2, eventsOf_concat,
            Option.toList_some] at hrun
          rw [Option.toList_some, List.pairwise_append, ih]
          refine and_congr_right fun _ => ?_
          rw [List.getLast?_concat]
          simp only [Option.some.injEq, forall_eq', List.pairwise_singleton, List.mem_singleton,
            forall_eq, true_and]
          exact holds_after_event hrun.1 hrun.2

/-! ### Runs -/

/-- An interface that is its addresses and its default route. -/
def routingTable : Iface (List Ipv4Cidr × Option Ipv4Address) where
  new := ([], none)
  ipAddrs := Prod.fst
  defaultRoute := Prod.snd
  updateIpAddrs := fun f s => (f s.1, s.2)
  addDefaultIpv4Route := fun router s => (s.1, some router)

theorem routingTable_lawful : routingTable.Lawful :=
  ⟨⟨rfl, rfl⟩, fun _ _ => ⟨rfl, rfl⟩, fun _ _ => ⟨rfl, rfl⟩⟩

/-- A lease at home, with a router. -/
def homeLease : DhcpConfig := ⟨⟨⟨10, 0, 0, 5⟩, 24⟩, some ⟨10, 0, 0, 1⟩⟩

/-- A lease that names no router. -/
def isolatedLease : DhcpConfig := ⟨⟨⟨172, 16, 0, 9⟩, 16⟩, none⟩

/-- A lease without a router, and then one with a router. -/
theorem renewed_lease_followed :
    FollowsLease routingTable [some (.configured isolatedLease), none, some (.configured homeLease)]
      ↔ (eventsOf [some (.configured isolatedLease), none,
          some (.configured homeLease)]).Pairwise fun earlier event => ¬ Stale earlier event :=
  interface_follows_lease_iff routingTable routingTable_lawful _

/-- **A lease that is lost.**  The address and the router stay; and so does the router when the next
lease names none. -/
theorem lost_lease_is_kept :
    ((lease routingTable).run (setupIface routingTable)
        [some (.configured homeLease), some .deconfigured]).1
        = ([homeLease.address], homeLease.router)
      ∧ ((lease routingTable).run (setupIface routingTable)
          [some (.configured homeLease), some (.configured isolatedLease)]).1
          = ([isolatedLease.address], homeLease.router)
      ∧ ¬ FollowsLease routingTable [some (.configured homeLease), some .deconfigured]
      ∧ ¬ FollowsLease routingTable
          [some (.configured homeLease), some (.configured isolatedLease)] := by
  refine ⟨rfl, rfl, fun hfollows => ?_, fun hfollows => ?_⟩
  · have hholds := hfollows _ (List.prefix_refl _) .deconfigured rfl
      ⟨homeLease, List.mem_cons_self⟩
    exact absurd hholds.1 (List.cons_ne_nil _ _)
  · have hholds := hfollows _ (List.prefix_refl _) (.configured isolatedLease) rfl
      ⟨homeLease, List.mem_cons_self⟩
    exact absurd hholds.2 (Option.some_ne_none _)

end WebUiBoot.Net
