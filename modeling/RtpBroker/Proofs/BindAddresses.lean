import RtpBroker.Proofs.AddressTexts
import RtpBroker.Startup

/-!
# The addresses of the servers

The servers bind one address, each on a port of its own. The configuration holds the text of the
address, and the texts with the ports are read when the broker starts: they are what they should be
for every IPv4 address, and for an IPv6 address only if it is written in brackets.
-/

namespace RtpBroker.Config

/-- A configuration with another address to bind. -/
def binding (c : Config) (text : String) : Config :=
  { c with network := { c.network with bindAddress := text } }

/-- The texts for both servers denote this address, each with its port. -/
structure Binds (c : Config) (ip : IpAddr) : Prop where
  api : SocketAddr.ofString? c.apiAddress = some { ip, port := c.network.apiPort }
  observability : SocketAddr.ofString? c.observabilityAddress =
    some { ip, port := c.observability.port }

/-- Neither text denotes anything. -/
structure Unreadable (c : Config) : Prop where
  api : SocketAddr.ofString? c.apiAddress = none
  observability : SocketAddr.ofString? c.observabilityAddress = none

/-- The end of a start at the address of a server. -/
def addressFlaw (context : String) : StartFlaw := .chain [context, SocketAddr.flaw]

/-- The address that is read first. -/
def firstAddressText (c : Config) : String :=
  if c.observability.enabled then observabilityAddressText else apiAddressText

variable {c : Config} {text : String} {ip : IpAddr} {host : Host} {calendar : Timestamp}
  {bindError? : SocketAddr → Option String}

/-! ## Reading -/

theorem readAddress_of_some {address : SocketAddr} (context : String)
    (h : SocketAddr.ofString? text = some address) : readAddress context text = .ok address := by
  rw [readAddress, h]

theorem readAddress_of_none (context : String) (h : SocketAddr.ofString? text = none) :
    readAddress context text = .error (addressFlaw context) := by
  rw [readAddress, h]
  rfl

theorem Binds.readAddresses (h : c.Binds ip) :
    c.readAddresses = .ok { ip, port := c.network.apiPort } := by
  unfold Config.readAddresses
  rw [readAddress_of_some _ h.api, readAddress_of_some _ h.observability]
  cases c.observability.enabled <;> rfl

theorem Unreadable.readAddresses (h : c.Unreadable) :
    c.readAddresses = .error (addressFlaw c.firstAddressText) := by
  unfold Config.readAddresses firstAddressText
  rw [readAddress_of_none _ h.api, readAddress_of_none _ h.observability]
  cases c.observability.enabled <;> rfl

theorem binds_of_v4 {w x y z : UInt8} (h : IpAddr.ofString? text = some (.v4 w x y z)) (c : Config) :
    (c.binding text).Binds (.v4 w x y z) where
  api := SocketAddr.ofString?_v4 h c.network.apiPort
  observability := SocketAddr.ofString?_v4 h c.observability.port

theorem unreadable_of_v6 {gs : Vector UInt16 8} (h : IpAddr.ofString? text = some (.v6 gs))
    (c : Config) : (c.binding text).Unreadable where
  api := SocketAddr.ofString?_v6 h c.network.apiPort
  observability := SocketAddr.ofString?_v6 h c.observability.port

theorem binds_bracketed {gs : Vector UInt16 8} (h : IpAddr.ofString? text = some (.v6 gs))
    (c : Config) : (c.binding (SocketAddr.bracketed text)).Binds (.v6 gs) where
  api := SocketAddr.ofString?_bracketed h c.network.apiPort
  observability := SocketAddr.ofString?_bracketed h c.observability.port

/-! ## Starting -/

theorem components_ne_addressFlaw {context : String} :
    c.components host calendar ≠ .error (addressFlaw context) := by
  intro h
  unfold components at h
  split at h
  · next texts hsetup =>
    unfold brokerSetup at hsetup
    split at hsetup
    · cases hsetup
      obtain ⟨-, hflaw⟩ : _ ∧ IpAddr.flaw = SocketAddr.flaw := by
        simpa [addressFlaw, bindHostFlaw] using h
      exact absurd hflaw (by decide)
    · cases hsetup
  · split at h
    · simp [addressFlaw] at h
    · cases h

theorem bringUp_of_addressFlaw {parts : Components} {context : String}
    (hparts : c.components host calendar = .ok parts)
    (hread : c.readAddresses = .error (addressFlaw context)) :
    (c.bringUp host calendar bindError?).2 = .error (addressFlaw context) := by
  unfold bringUp
  rw [hparts, hread]

/-- A start does not end at an address that can be read. -/
theorem Binds.bringUp_ne (h : c.Binds ip) (context : String) :
    (c.bringUp host calendar bindError?).2 ≠ .error (addressFlaw context) := by
  unfold bringUp
  cases hparts : c.components host calendar with
  | error f =>
    intro heq
    cases heq
    exact components_ne_addressFlaw hparts
  | ok parts =>
    rw [h.readAddresses]
    dsimp only
    split
    · simp [addressFlaw]
    · split <;> simp [addressFlaw]

/-- The check of a configuration does not look at the address to bind. With an IPv4 address the
texts for both servers denote it, and the start does not end there. With an IPv6 address neither can
be read, so the start ends there as soon as it has made the broker; with the brackets it gets on. -/
theorem bind_addresses (c : Config) (text : String) (host : Host) (calendar : Timestamp)
    (bindError? : SocketAddr → Option String) :
    (c.binding text).check = c.check ∧
    (∀ w x y z, IpAddr.ofString? text = some (.v4 w x y z) →
      (c.binding text).Binds (.v4 w x y z) ∧
      ∀ context, ((c.binding text).bringUp host calendar bindError?).2 ≠
        .error (addressFlaw context)) ∧
    (∀ gs, IpAddr.ofString? text = some (.v6 gs) →
      (c.binding text).Unreadable ∧
      (∀ parts, c.components host calendar = .ok parts →
        ((c.binding text).bringUp host calendar bindError?).2 =
          .error (addressFlaw c.firstAddressText)) ∧
      (c.binding (SocketAddr.bracketed text)).Binds (.v6 gs) ∧
      ∀ context, ((c.binding (SocketAddr.bracketed text)).bringUp host calendar bindError?).2 ≠
        .error (addressFlaw context)) := by
  refine ⟨rfl, fun w x y z h => ?_, fun gs h => ?_⟩
  · have hbinds := binds_of_v4 h c
    exact ⟨hbinds, hbinds.bringUp_ne⟩
  · have hunreadable := unreadable_of_v6 h c
    have hbinds := binds_bracketed h c
    have hends : ∀ parts, c.components host calendar = .ok parts →
        ((c.binding text).bringUp host calendar bindError?).2 =
          .error (addressFlaw c.firstAddressText) :=
      fun parts hparts => bringUp_of_addressFlaw hparts hunreadable.readAddresses
    exact ⟨hunreadable, hends, hbinds, hbinds.bringUp_ne⟩

theorem bind_addresses_loopback :
    (binding {} "127.0.0.1").Binds (.v4 127 0 0 1) ∧
    ((binding {} "::1").bringUp {} ⟨0, 0⟩ fun _ => none).2 =
      .error (addressFlaw apiAddressText) ∧
    (binding {} "[::1]").Binds (.v6 #v[0, 0, 0, 0, 0, 0, 0, 1]) := by
  have hv4 : IpAddr.ofString? "127.0.0.1" = some (.v4 127 0 0 1) := by decide +kernel
  have hv6 : IpAddr.ofString? "::1" = some (.v6 #v[0, 0, 0, 0, 0, 0, 0, 1]) := by decide +kernel
  obtain ⟨-, hbinds, -⟩ := bind_addresses {} "127.0.0.1" {} ⟨0, 0⟩ fun _ => none
  obtain ⟨-, -, hends⟩ := bind_addresses {} "::1" {} ⟨0, 0⟩ fun _ => none
  obtain ⟨-, hends, hbracketed, -⟩ := hends _ hv6
  exact ⟨(hbinds 127 0 0 1 hv4).1, hends _ rfl, hbracketed⟩

/-- The address `::1` passes the check, and the start ends at it. -/
theorem not_bind_addresses_read :
    (¬ ∀ (c : Config) (ip : IpAddr), IpAddr.ofString? c.network.bindAddress = some ip →
      c.Binds ip) ∧
    (¬ ∀ (c : Config) (ip : IpAddr) (host : Host) (calendar : Timestamp)
      (bindError? : SocketAddr → Option String), c.check = .ok () →
      IpAddr.ofString? c.network.bindAddress = some ip →
      ∀ context, (c.bringUp host calendar bindError?).2 ≠ .error (addressFlaw context)) := by
  have hv6 : IpAddr.ofString? "::1" = some (.v6 #v[0, 0, 0, 0, 0, 0, 0, 1]) := by decide +kernel
  have hunreadable := unreadable_of_v6 hv6 {}
  constructor
  · intro hall
    have happ := (hall (binding {} "::1") _ hv6).api
    rw [hunreadable.api] at happ
    cases happ
  · intro hall
    exact hall (binding {} "::1") _ {} ⟨0, 0⟩ (fun _ => none) rfl hv6 apiAddressText
      (bringUp_of_addressFlaw rfl hunreadable.readAddresses)

end RtpBroker.Config
