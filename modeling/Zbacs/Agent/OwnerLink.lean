import Zbacs.Agent.UserOpSigner
import Zbacs.Core.RecoveryCode
import Zbacs.Lib.Threads

namespace Zbacs.Agent

open Zbacs.Lib Zbacs.Core
open Zbacs.Agent.Setup (ApprovalStyle DeviceProfile Prepared SetupEnv SignerKind adoptAccount complete resume)
open Zbacs.Contracts (Address)
open Zbacs.Onchain (Aa.KernelAccount RootValidator)

-- The link of a machine to the chain: what the environment asks for, who the machine writes as, and how
-- the owner's address gets into the profile.

def rpcEnv : String := "ZBACS_CHAIN_RPC"

def deploymentEnv : String := "ZBACS_CHAIN_DEPLOYMENT"

def keyEnv : String := "ZBACS_CHAIN_KEY"

def bundlerEnv : String := "ZBACS_BUNDLER_URL"

def paymasterPolicyEnv : String := "ZBACS_PAYMASTER_POLICY"

-- What the build has in it.
structure Embedded where
  rpc : Option String
  deploymentJson : Option String
  bundler : Option String
  paymasterPolicy : Option String
  manifestDir : String

inductive DeploymentSource where
  | path (p : String)
  | json (text : String)
deriving DecidableEq

structure EnvConfig where
  rpc : String
  deployment : DeploymentSource
  key : Option String
  bundler : Option String
  paymasterPolicy : Option String
deriving DecidableEq

-- `str::trim`
def trim (s : String) : String :=
  .ofList ((s.toList.dropWhile isWhitespace).reverse.dropWhile isWhitespace).reverse

namespace EnvConfig

-- A variable that is blank is not set.
def get (env : String → Option String) (name : String) : Option String :=
  ((env name).map trim).filter fun v => v ≠ ""

-- What is set now goes before what was set when the program was built. A funded key is never built in.
def resolve (env : String → Option String) (embedded : Embedded) : Option EnvConfig := do
  let rpc ← (get env rpcEnv).or embedded.rpc
  let deployment := match get env deploymentEnv with
    | some path => DeploymentSource.path path
    | none => match embedded.deploymentJson with
      | some text => .json text
      | none => .path (embedded.manifestDir ++ "/../../../contracts/deployments/31337.json")
  some ⟨rpc, deployment, get env keyEnv, (get env bundlerEnv).or embedded.bundler,
    (get env paymasterPolicyEnv).or embedded.paymasterPolicy⟩

end EnvConfig

-- How the writer is built.
inductive WriterSetup where
  | none
  | key (key : String)
  | account (bundlerUrls : String) (paymasterPolicy : Option String) (root : RootValidator)
      (deviceSetting : Confirmation) (promptsAlways : Bool)
deriving DecidableEq

inductive Mode where
  | direct
  | smartAccount
  | readOnly
deriving DecidableEq

-- What is left of a link here: whom it writes as, how, and whether silent writes wait for a tap.
structure OwnerLink where
  owner : Option Address
  mode : Mode
  defersSilentWrites : Bool
deriving DecidableEq

-- The hash of the chain, and the address of a funded key, if the text is one.
structure Wallets where
  keccak256 : Bytes → FixedBytes 32
  signerAddress : String → Option Address

def writerSetup (config : EnvConfig) (deployment : Onchain.Deployment) (identity : Option Prepared) :
    WriterSetup :=
  match config.key, config.bundler, identity with
  | some key, _, _ => .key key
  | none, none, _ => .none
  -- the owner's account waits for setup to finish
  | none, some _, none => .none
  | none, some bundlerUrls, some prepared =>
    match rootValidatorFor prepared.profile deployment.p256Validator with
    | some root => .account bundlerUrls config.paymasterPolicy root prepared.profile.style.deviceConfirmation
        (prepared.profile.signer = .platformPasskey)
    | none => .none

-- `ChainLink::connect`, once the node has answered.
def OwnerLink.connect (W : Wallets) : WriterSetup → Option OwnerLink
  | .none => some ⟨none, .readOnly, false⟩
  | .key key => (W.signerAddress key).map fun owner => ⟨some owner, .direct, false⟩
  | .account _ _ root _ promptsAlways =>
    some ⟨some ((Aa.KernelAccount.new root).address W.keccak256), .smartAccount, promptsAlways⟩

-- How far a call of `ensure` has got.
inductive Linking where
  | called (config : EnvConfig)
  | connecting (setup : WriterSetup)
  | ended
deriving DecidableEq

structure LinkState where
  profile : Option DeviceProfile
  identity : Option Prepared
  link : Option OwnerLink

-- The owner's address goes into the profile and into what is in memory.
def LinkState.adoptOwner (env : SetupEnv) (owner : Address) (s : LinkState) : LinkState :=
  match adoptAccount env s.profile owner with
  | (.error _, disk) => { s with profile := disk }
  | (.ok pending, disk) => { s with
      profile := disk
      identity := s.identity.map fun prepared =>
        { prepared with profile := { prepared.profile with account := some owner }, pending := pending } }

-- What a call of `ensure` meets as it goes on: the deployment file, the node, and the disk.
structure LinkMeets where
  deployment : Option Onchain.Deployment
  reached : Bool
  env : SetupEnv

def Linking.run (W : Wallets) (t : Linking) (meets : LinkMeets) (s : LinkState) :
    List OwnerLink × Linking × LinkState :=
  match t with
  | .called config => match meets.deployment with
    | none => ([], .ended, s)
    | some deployment => ([], .connecting (writerSetup config deployment s.identity), s)
  | .connecting setup =>
    if !meets.reached then ([], .ended, s)
    else match OwnerLink.connect W setup with
      | none => ([], .ended, s)
      | some link =>
        let s := match link.owner with
          | none => s
          | some owner => s.adoptOwner meets.env owner
        ([link], .ended, { s with link := some link })
  | .ended => ([], .ended, s)

inductive LinkAction where
  | completeSetup (style : ApprovalStyle) (env : SetupEnv)
  | ensure (env : String → Option String) (embedded : Embedded)
  | proceed (index : Nat) (meets : LinkMeets)
  -- the process ends, and another one starts and resumes the setup
  | restart (env : SetupEnv)

abbrev OwnerAgent := Threads LinkState Linking

namespace OwnerAgent

def start : OwnerAgent := ⟨⟨none, none, none⟩, []⟩

def step (W : Wallets) (s : OwnerAgent) : LinkAction → List OwnerLink × OwnerAgent
  | .completeSetup style env => match complete env s.shared.profile style with
    | (.error _, disk) => ([], { s with shared := { s.shared with profile := disk } })
    | (.ok prepared, disk) =>
      ([], { s with shared := { s.shared with profile := disk, identity := some prepared } })
  | .ensure env embedded => match EnvConfig.resolve env embedded, s.shared.link with
    | some config, none => s.turn Linking.called (Linking.run W) (.start config)
    | _, _ => ([], s)
  | .proceed index meets => s.turn Linking.called (Linking.run W) (.resume index meets)
  | .restart env => ([], ⟨⟨s.shared.profile, (resume env s.shared.profile).toOption.join, none⟩, []⟩)

end OwnerAgent

end Zbacs.Agent
