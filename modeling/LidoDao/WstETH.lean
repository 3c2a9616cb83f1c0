import LidoDao.Protocol

namespace LidoDao

open Evm Library.Outcome Library.Transition

/-- The token contract that the wrapper extends, at states `T`; `κ` are the calls of its
own external functions. -/
structure ERC20 (T κ : Type) where
  empty : T
  totalSupply : T → ℕ
  balanceOf : T → Address → ℕ
  _mint : T → Address → ℕ → Except Revert T
  _burn : T → Address → ℕ → Except Revert T
  call : T → Address → κ → Except Revert T

/-- What the documentation of the token promises. -/
structure ERC20.Standard {T κ : Type} (E : ERC20 T κ) : Prop where
  empty : E.totalSupply E.empty = 0
  zero : ∀ t, E.balanceOf t 0 = 0
  mint : ∀ {t t' a n}, E._mint t a n = .ok t' → E.totalSupply t' = E.totalSupply t + n
  burn : ∀ {t t' a n}, E._burn t a n = .ok t' → E.totalSupply t' + n = E.totalSupply t
  burn_isOk : ∀ {t a n}, a ≠ 0 → n ≤ E.balanceOf t a → (E._burn t a n).isOk = true
  call : ∀ {t t' a k}, E.call t a k = .ok t' → E.totalSupply t' = E.totalSupply t

/-- The account of a contract that holds shares of the pool. -/
structure HolderContract (D : Deployment) where
  address : Address
  ne_zero : address ≠ 0
  ne_lido : address ≠ D.lido

/-- A call of the pool by the contract. It holds no role of the pool. -/
def HolderContract.call {D : Deployment} (H : HolderContract D) (blockNumber : ℕ) : LidoCall D where
  sender := H.address
  sender_ne_lido := H.ne_lido
  blockNumber := blockNumber
  canPerform _ _ := false
  depositAccepts _ _ := false
  recoveryVault := H.address
  recoveryVault_ne_lido := H.ne_lido
  recoveryAccepts := false
  tokenTransfers := false

/-- The pool with the wrapper's token. -/
structure WrapWorld (R T : Type) where
  pool : World R
  token : T

variable {R ρ T κ : Type}

namespace WstETH

variable {D : Deployment} (I : INodeOperatorsRegistry R ρ) (H : HolderContract D) (E : ERC20 T κ)
  (w : WrapWorld R T)

def wrap (msgSender : Address) (blockNumber stETHAmount : ℕ) : Except Revert (WrapWorld R T) := do
  require (0 < stETHAmount) (.reason "wstETH: can't wrap zero stETH")
  let wstETHAmount ← w.pool.lido.getSharesByPooledEth stETHAmount
  let token ← E._mint w.token msgSender wstETHAmount
  let pool ← World.handle D I (H.call blockNumber)
    (.transferFrom msgSender H.address stETHAmount) w.pool
  pure { pool, token }

def unwrap (msgSender : Address) (blockNumber wstETHAmount : ℕ) :
    Except Revert (WrapWorld R T) := do
  require (0 < wstETHAmount) (.reason "wstETH: zero amount unwrap not allowed")
  let stETHAmount ← w.pool.lido.getPooledEthByShares wstETHAmount
  let token ← E._burn w.token msgSender wstETHAmount
  let pool ← World.handle D I (H.call blockNumber) (.transfer msgSender stETHAmount) w.pool
  pure { pool, token }

def receive (msgSender : Address) (blockNumber msgValue : ℕ) : Except Revert (WrapWorld R T) := do
  let (shares, lido) ← w.pool.lido.submit H.address msgValue blockNumber
  let token ← E._mint w.token msgSender shares
  pure { pool := { w.pool with lido }, token }

end WstETH

/-- Anything around the wrapper, one of its functions or a call of its token. The
wrapper calls the pool only through its own functions. -/
inductive WrapEvent {D : Deployment} (H : HolderContract D) (ρ κ : Type)
  | pool (e : Event D ρ) (he : ∀ c m, e = .lido c m → c.sender ≠ H.address)
  | wrap (msgSender : Address) (blockNumber stETHAmount : ℕ)
  | unwrap (msgSender : Address) (blockNumber wstETHAmount : ℕ)
  | receive (msgSender : Address) (blockNumber msgValue : ℕ)
  | token (msgSender : Address) (k : κ)

namespace WrapWorld

variable {D : Deployment} (I : INodeOperatorsRegistry R ρ) (H : HolderContract D) (E : ERC20 T κ)

def step (w : WrapWorld R T) : WrapEvent H ρ κ → Except Revert (WrapWorld R T)
  | .pool e _ => do
    let pool ← World.step D I w.pool e
    pure { w with pool }
  | .wrap msgSender blockNumber stETHAmount =>
    WstETH.wrap I H E w msgSender blockNumber stETHAmount
  | .unwrap msgSender blockNumber wstETHAmount =>
    WstETH.unwrap I H E w msgSender blockNumber wstETHAmount
  | .receive msgSender blockNumber msgValue => WstETH.receive H E w msgSender blockNumber msgValue
  | .token msgSender k => do
    let token ← E.call w.token msgSender k
    pure { w with token }

def machine : Machine (WrapWorld R T) (WrapEvent H ρ κ) Revert where
  initial w := (World.machine D I).initial w.pool ∧ w.token = E.empty
  step := step I H E

end WrapWorld

end LidoDao
