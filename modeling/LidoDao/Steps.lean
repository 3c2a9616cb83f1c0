import LidoDao.DepositEffects
import LidoDao.PoolCalls
import LidoDao.ReportEffects

namespace LidoDao

open Evm Library.Outcome Library.Ledger Library.Transition SafeMath EtherBooks StakeLimit

variable {R ρ : Type} {D : Deployment} {I : INodeOperatorsRegistry R ρ}

/-- What the checks of the setters keep true. -/
structure Settings.Valid (s : Settings) : Prop where
  fee : s.fee ≤ Lido.totalBasisPoints
  distribution : (s.treasuryFee = 0 ∧ s.insuranceFee = 0 ∧ s.nodeOperatorsFee = 0) ∨
    s.treasuryFee + s.insuranceFee + s.nodeOperatorsFee = Lido.totalBasisPoints
  limit : s.elRewardsWithdrawalLimit ≤ Lido.totalBasisPoints
  oracle : s.oracle ≠ 0
  treasury : s.treasury ≠ 0
  insuranceFund : s.insuranceFund ≠ 0

/-- A change of the token that no ether moves with. -/
structure TokenStep (s t : StETH) : Prop where
  balanced : s.Balanced → t.Balanced
  totalShares : t.totalShares ≤ s.totalShares

namespace TokenStep

variable {s t u : StETH} {pooled : Except Revert ℕ}

theorem of_eq (hs : t.shares = s.shares) (ht : t.totalShares = s.totalShares) :
    TokenStep s t :=
  ⟨fun h ↦ h.of_eq hs ht, ht.le⟩

theorem transferShares {sender recipient : Address} {amount : ℕ}
    (h : s._transferShares sender recipient amount = .ok t) : TokenStep s t := by
  refine ⟨fun hs ↦ hs.transferShares h, ?_⟩
  obtain ⟨_, _, _, _, _, rfl⟩ := StETH._transferShares_eq_ok.mp h
  exact le_rfl

theorem transfer {sender recipient : Address} {amount : ℕ}
    (h : s._transfer pooled sender recipient amount = .ok t) : TokenStep s t := by
  obtain ⟨_, _, h⟩ := StETH._transfer_ok h
  exact transferShares h

theorem transferFrom {msgSender sender recipient : Address} {amount : ℕ}
    (h : s.transferFrom pooled msgSender sender recipient amount = .ok t) : TokenStep s t := by
  obtain ⟨u, hu, hshares, htotal, _⟩ := StETH.transferFrom_ok h
  have hstep := transfer hu
  exact ⟨fun hs ↦ (hstep.balanced hs).of_eq hshares htotal, htotal.trans_le hstep.totalShares⟩

theorem approve {owner spender : Address} {amount : ℕ}
    (h : s._approve owner spender amount = .ok t) : TokenStep s t := by
  obtain ⟨hshares, htotal, _⟩ := StETH._approve_ok h
  exact of_eq hshares htotal

theorem increaseAllowance {msgSender spender : Address} {addedValue : ℕ}
    (h : s.increaseAllowance msgSender spender addedValue = .ok t) : TokenStep s t :=
  approve (StETH.increaseAllowance_ok h)

theorem decreaseAllowance {msgSender spender : Address} {subtractedValue : ℕ}
    (h : s.decreaseAllowance msgSender spender subtractedValue = .ok t) : TokenStep s t :=
  approve (StETH.decreaseAllowance_ok h).2

theorem burnShares {account : Address} {amount : ℕ}
    (h : s._burnShares pooled account amount = .ok t) : TokenStep s t := by
  refine ⟨fun hs ↦ hs.burnShares h, ?_⟩
  obtain ⟨_, _, _, rfl⟩ := StETH._burnShares_ok h
  exact Nat.sub_le _ _

end TokenStep

/-- The entry an event makes in the books; the number of validators deposited and
the rewards withdrawn are not part of the event. -/
def Event.entry (deposited withdrawn : ℕ) : Event D ρ → Entry
  | .lido _ (.submit _ msgValue) | .lido _ (.fallback _ msgValue) => .paidIn msgValue
  | .lido _ (.receiveELRewards msgValue) => .rewardsIn msgValue
  | .lido _ .depositBufferedEther | .lido _ (.depositBufferedEtherUpTo _) => .deposited deposited
  | .lido _ (.handleOracleReport validators balance) => .reported validators balance withdrawn
  | .lido _ (.transferToVault token) => if token = 0 then .recovered else .idle
  | .forceEther amount => .credited amount
  | _ => .idle

def Event.maxDeposits : Event D ρ → Option ℕ
  | .lido _ .depositBufferedEther => some Lido.defaultMaxDepositsPerCall
  | .lido _ (.depositBufferedEtherUpTo maxDeposits) => some maxDeposits
  | _ => none

/-- What an accepted event does to the pool and the contracts around it. -/
inductive Change (I : INodeOperatorsRegistry R ρ) (w : World R) : Event D ρ → World R → Prop
  | token {e : Event D ρ} {t : StETH} (he : ∀ n x, e.entry n x = .idle)
      (ht : TokenStep w.lido.toStETH t) :
      Change I w e { w with lido := { w.lido with toStETH := t } }
  | control {e : Event D ρ} {activeFlag : Bool} {stakingState : BitVec 256}
      (he : ∀ n x, e.entry n x = .idle) :
      Change I w e { w with lido := { w.lido with activeFlag, stakingState } }
  | settings {e : Event D ρ} {st : Settings} (he : ∀ n x, e.entry n x = .idle)
      (hst : w.lido.toSettings.Valid → st.Valid)
      (hcredentials : st.withdrawalCredentials = w.lido.withdrawalCredentials) :
      Change I w e { w with lido := { w.lido with toSettings := st } }
  | credentials {c : LidoCall D} {withdrawalCredentials : ℕ} {registry : R}
      (h : I.trimUnusedKeys w.registry = .ok registry) :
      Change I w (.lido c (.setWithdrawalCredentials withdrawalCredentials))
        { w with lido := { w.lido with withdrawalCredentials }, registry }
  | paidIn {e : Event D ρ} {c : LidoCall D} {v m : ℕ} {s : Lido}
      (he : ∀ n x, e.entry n x = .paidIn v)
      (h : (w.lido.receive v)._submit c.sender v c.blockNumber = .ok (m, s)) :
      Change I w e { w with lido := s }
  | rewardsIn {c : LidoCall D} {v : ℕ} {s : Lido}
      (h : w.lido.receiveELRewards c.sender v = .ok s) :
      Change I w (.lido c (.receiveELRewards v)) { w with lido := s }
  | deposited {c : LidoCall D} {m : LidoMessage} {maxDeposits : ℕ} {w' : World R}
      (hm : (Event.lido c m : Event D ρ).maxDeposits = some maxDeposits)
      (he : ∀ n x, (Event.lido c m : Event D ρ).entry n x = .deposited n)
      (h : Lido._depositBufferedEther D I c maxDeposits w = .ok w') :
      Change I w (.lido c m) w'
  | reported {c : LidoCall D} (v b : ℕ) {w' : World R}
      (h : Lido.handleOracleReport D I c.sender v b w = .ok w') :
      Change I w (.lido c (.handleOracleReport v b)) w'
  | recovered {c : LidoCall D} {vaults : Address → Option ELRewardsVault}
      (h : w.lido.bufferedEther ≤ w.lido.balance) :
      Change I w (.lido c (.transferToVault 0))
        { w with lido := { w.lido with balance := w.lido.bufferedEther }, vaults }
  | forceEther (amount : ℕ) :
      Change I w (.forceEther amount) { w with lido := w.lido.receive amount }
  | registry {r : ρ} {registry : R} (h : I.call w.registry r = .ok registry) :
      Change I w (.registry r) { w with registry }
  | vaults {e : Event D ρ} {vaults : Address → Option ELRewardsVault}
      (he : ∀ n x, e.entry n x = .idle) : Change I w e { w with vaults }

/-- What an accepted event does, call by call, and who may make the call. -/
inductive Effect (I : INodeOperatorsRegistry R ρ) (w : World R) : Event D ρ → World R → Prop
  | fallback {c : LidoCall D} {msgValue n : ℕ} {s : Lido}
      (h : (w.lido.receive msgValue)._submit c.sender msgValue c.blockNumber = .ok (n, s)) :
      Effect I w (.lido c (.fallback 0 msgValue)) { w with lido := s }
  | submit {c : LidoCall D} {referral : Address} {msgValue n : ℕ} {s : Lido}
      (h : (w.lido.receive msgValue)._submit c.sender msgValue c.blockNumber = .ok (n, s)) :
      Effect I w (.lido c (.submit referral msgValue)) { w with lido := s }
  | receiveELRewards {c : LidoCall D} {msgValue : ℕ} {s : Lido}
      (h : w.lido.receiveELRewards c.sender msgValue = .ok s) :
      Effect I w (.lido c (.receiveELRewards msgValue)) { w with lido := s }
  | depositBufferedEther {c : LidoCall D} {w' : World R}
      (hauth : c.canPerform .depositRole [] = true)
      (h : Lido._depositBufferedEther D I c Lido.defaultMaxDepositsPerCall w = .ok w') :
      Effect I w (.lido c .depositBufferedEther) w'
  | depositBufferedEtherUpTo {c : LidoCall D} {maxDeposits : ℕ} {w' : World R}
      (hauth : c.canPerform .depositRole [] = true)
      (h : Lido._depositBufferedEther D I c maxDeposits w = .ok w') :
      Effect I w (.lido c (.depositBufferedEtherUpTo maxDeposits)) w'
  | burnShares {c : LidoCall D} {account : Address} {sharesAmount : ℕ} {t : StETH}
      (hauth : c.canPerform .burnRole [account.id, sharesAmount] = true)
      (h : w.lido.toStETH._burnShares w.lido._getTotalPooledEther account sharesAmount = .ok t) :
      Effect I w (.lido c (.burnShares account sharesAmount))
        { w with lido := { w.lido with toStETH := t } }
  | stop {c : LidoCall D} (hauth : c.canPerform .pauseRole [] = true) :
      Effect I w (.lido c .stop)
        { w with
          lido := ({ w.lido with activeFlag := false } : Lido)._pauseStaking c.blockNumber }
  | resume {c : LidoCall D} (hauth : c.canPerform .resumeRole [] = true) :
      Effect I w (.lido c .resume)
        { w with
          lido := ({ w.lido with activeFlag := true } : Lido)._resumeStaking c.blockNumber }
  | pauseStaking {c : LidoCall D} (hauth : c.canPerform .stakingPauseRole [] = true) :
      Effect I w (.lido c .pauseStaking)
        { w with lido := w.lido._pauseStaking c.blockNumber }
  | resumeStaking {c : LidoCall D} (hauth : c.canPerform .stakingControlRole [] = true) :
      Effect I w (.lido c .resumeStaking)
        { w with lido := w.lido._resumeStaking c.blockNumber }
  | setStakingLimit {c : LidoCall D} {maxStakeLimit stakeLimitIncreasePerBlock : ℕ} {d : Data}
      (hauth : c.canPerform .stakingControlRole [] = true)
      (h : (getStorageStakeLimitStruct w.lido.stakingState).setStakingLimit maxStakeLimit
        stakeLimitIncreasePerBlock c.blockNumber = .ok d) :
      Effect I w (.lido c (.setStakingLimit maxStakeLimit stakeLimitIncreasePerBlock))
        { w with lido := { w.lido with stakingState := setStorageStakeLimitStruct d } }
  | removeStakingLimit {c : LidoCall D} (hauth : c.canPerform .stakingControlRole [] = true) :
      Effect I w (.lido c .removeStakingLimit) { w with lido := w.lido.removeStakingLimit }
  | setFee {c : LidoCall D} {fee : ℕ} (hauth : c.canPerform .manageFee [] = true)
      (h : fee ≤ Lido.totalBasisPoints) :
      Effect I w (.lido c (.setFee fee)) { w with lido := { w.lido with fee } }
  | setFeeDistribution {c : LidoCall D} {treasuryFee insuranceFee nodeOperatorsFee : ℕ}
      (hauth : c.canPerform .manageFee [] = true)
      (h : treasuryFee + insuranceFee + nodeOperatorsFee = Lido.totalBasisPoints) :
      Effect I w (.lido c (.setFeeDistribution treasuryFee insuranceFee nodeOperatorsFee))
        { w with lido := { w.lido with treasuryFee, insuranceFee, nodeOperatorsFee } }
  | setProtocolContracts {c : LidoCall D} {oracle treasury insuranceFund : Address}
      (hauth : c.canPerform .manageProtocolContractsRole [] = true)
      (h : oracle ≠ 0 ∧ treasury ≠ 0 ∧ insuranceFund ≠ 0) :
      Effect I w (.lido c (.setProtocolContracts oracle treasury insuranceFund))
        { w with lido := { w.lido with oracle, treasury, insuranceFund } }
  | setWithdrawalCredentials {c : LidoCall D} {withdrawalCredentials : ℕ} {registry : R}
      (hauth : c.canPerform .manageWithdrawalKey [] = true)
      (h : I.trimUnusedKeys w.registry = .ok registry) :
      Effect I w (.lido c (.setWithdrawalCredentials withdrawalCredentials))
        { w with lido := { w.lido with withdrawalCredentials }, registry }
  | setELRewardsVault {c : LidoCall D} {vault : Address}
      (hauth : c.canPerform .setELRewardsVaultRole [] = true) :
      Effect I w (.lido c (.setELRewardsVault vault))
        { w with lido := { w.lido with elRewardsVault := vault } }
  | setELRewardsWithdrawalLimit {c : LidoCall D} {limit : ℕ}
      (hauth : c.canPerform .setELRewardsWithdrawalLimitRole [] = true)
      (h : limit ≤ Lido.totalBasisPoints) :
      Effect I w (.lido c (.setELRewardsWithdrawalLimit limit))
        { w with lido := { w.lido with elRewardsWithdrawalLimit := limit } }
  | handleOracleReport {c : LidoCall D} {v b : ℕ} {w' : World R}
      (h : Lido.handleOracleReport D I c.sender v b w = .ok w') :
      Effect I w (.lido c (.handleOracleReport v b)) w'
  | etherRecovered {c : LidoCall D} (h : w.lido.bufferedEther ≤ w.lido.balance) :
      Effect I w (.lido c (.transferToVault 0))
        { w with
          lido := { w.lido with balance := w.lido.bufferedEther }
          vaults := fun a ↦ if a = c.recoveryVault then
            (w.vaults a).map (·.receive (w.lido.balance - w.lido.bufferedEther)) else w.vaults a }
  | sharesRecovered {c : LidoCall D} {token : Address} {amount : ℕ} {t : StETH} (htoken : token ≠ 0)
      (h : w.lido.toStETH._transferShares D.lido c.recoveryVault amount = .ok t) :
      Effect I w (.lido c (.transferToVault token))
        { w with lido := { w.lido with toStETH := t } }
  | tokenRecovered {c : LidoCall D} {token : Address} (htoken : token ≠ 0) :
      Effect I w (.lido c (.transferToVault token)) w
  | transfer {c : LidoCall D} {recipient : Address} {amount : ℕ} {t : StETH}
      (h : w.lido.toStETH._transfer w.lido._getTotalPooledEther c.sender recipient amount = .ok t) :
      Effect I w (.lido c (.transfer recipient amount))
        { w with lido := { w.lido with toStETH := t } }
  | approve {c : LidoCall D} {spender : Address} {amount : ℕ} {t : StETH}
      (h : w.lido.toStETH._approve c.sender spender amount = .ok t) :
      Effect I w (.lido c (.approve spender amount))
        { w with lido := { w.lido with toStETH := t } }
  | transferFrom {c : LidoCall D} {sender recipient : Address} {amount : ℕ} {t : StETH}
      (h : w.lido.toStETH.transferFrom w.lido._getTotalPooledEther c.sender sender recipient
        amount = .ok t) :
      Effect I w (.lido c (.transferFrom sender recipient amount))
        { w with lido := { w.lido with toStETH := t } }
  | increaseAllowance {c : LidoCall D} {spender : Address} {addedValue : ℕ} {t : StETH}
      (h : w.lido.toStETH.increaseAllowance c.sender spender addedValue = .ok t) :
      Effect I w (.lido c (.increaseAllowance spender addedValue))
        { w with lido := { w.lido with toStETH := t } }
  | decreaseAllowance {c : LidoCall D} {spender : Address} {subtractedValue : ℕ} {t : StETH}
      (h : w.lido.toStETH.decreaseAllowance c.sender spender subtractedValue = .ok t) :
      Effect I w (.lido c (.decreaseAllowance spender subtractedValue))
        { w with lido := { w.lido with toStETH := t } }
  | transferShares {c : LidoCall D} {recipient : Address} {sharesAmount : ℕ} {t : StETH}
      (h : w.lido.toStETH._transferShares c.sender recipient sharesAmount = .ok t) :
      Effect I w (.lido c (.transferShares recipient sharesAmount))
        { w with lido := { w.lido with toStETH := t } }
  | registry {r : ρ} {registry : R} (h : I.call w.registry r = .ok registry) :
      Effect I w (.registry r) { w with registry }
  | forceEther (amount : ℕ) :
      Effect I w (.forceEther amount) { w with lido := w.lido.receive amount }
  | fundVault (vault : Address) (amount : ℕ) :
      Effect I w (.fundVault vault amount)
        { w with vaults := fun a ↦
          if a = vault then (w.vaults a).map (·.receive amount) else w.vaults a }
  | deployVault {vault lido treasury : Address} {balance : ℕ} {deployed : ELRewardsVault}
      (hvault : vault ≠ D.lido ∧ w.vaults vault = none)
      (h : ELRewardsVault.constructor lido treasury balance = .ok deployed) :
      Effect I w (.deployVault vault lido treasury balance)
        { w with vaults := Function.update w.vaults vault (some deployed) }

namespace World

variable {w w' : World R} {e : Event D ρ}

theorem handle_effect {c : LidoCall D} {m : LidoMessage} (h : handle D I c m w = .ok w') :
    Effect I w (.lido c m) w' := by
  cases m with
  | fallback msgDataLength msgValue =>
    rw [fallback_eq_ok] at h
    obtain ⟨rfl, _, _, h, rfl⟩ := h
    exact .fallback h
  | submit referral msgValue =>
    rw [submit_eq_ok] at h
    obtain ⟨_, _, h, rfl⟩ := h
    exact .submit h
  | receiveELRewards msgValue =>
    rw [handle, onLido_eq_ok] at h
    obtain ⟨_, h, rfl⟩ := h
    exact .receiveELRewards h
  | depositBufferedEther =>
    simp only [handle, bind_eq_ok, Call.auth, require_eq_ok, exists_const] at h
    exact .depositBufferedEther h.1 h.2
  | depositBufferedEtherUpTo maxDeposits =>
    simp only [handle, bind_eq_ok, Call.auth, require_eq_ok, exists_const] at h
    exact .depositBufferedEtherUpTo h.1 h.2
  | burnShares account sharesAmount =>
    rw [burnShares_eq_ok] at h
    obtain ⟨hauth, _, h, rfl⟩ := h
    exact .burnShares hauth h
  | stop =>
    rw [handle, authorized_eq_ok] at h
    obtain ⟨hauth, _, h, rfl⟩ := h
    obtain rfl := Lido.stop_ok h
    exact .stop hauth
  | resume =>
    rw [handle, authorized_eq_ok] at h
    obtain ⟨hauth, _, h, rfl⟩ := h
    obtain rfl := Lido.resume_ok h
    exact .resume hauth
  | pauseStaking =>
    rw [handle, authorizedAlways_eq_ok] at h
    obtain ⟨hauth, rfl⟩ := h
    exact .pauseStaking hauth
  | resumeStaking =>
    rw [handle, authorizedAlways_eq_ok] at h
    obtain ⟨hauth, rfl⟩ := h
    exact .resumeStaking hauth
  | setStakingLimit maxStakeLimit stakeLimitIncreasePerBlock =>
    rw [handle, authorized_eq_ok] at h
    obtain ⟨hauth, _, h, rfl⟩ := h
    obtain ⟨_, hd, rfl⟩ := Lido.setStakingLimit_ok h
    exact .setStakingLimit hauth hd
  | removeStakingLimit =>
    rw [handle, authorizedAlways_eq_ok] at h
    obtain ⟨hauth, rfl⟩ := h
    exact .removeStakingLimit hauth
  | setFee feeBasisPoints =>
    rw [handle, authorized_eq_ok] at h
    obtain ⟨hauth, _, h, rfl⟩ := h
    obtain ⟨hfee, rfl⟩ := Lido.setFee_ok h
    exact .setFee hauth hfee
  | setFeeDistribution treasuryFee insuranceFee operatorsFee =>
    rw [handle, authorized_eq_ok] at h
    obtain ⟨hauth, _, h, rfl⟩ := h
    obtain ⟨hsum, rfl⟩ := Lido.setFeeDistribution_ok h
    exact .setFeeDistribution hauth hsum
  | setProtocolContracts oracle treasury insuranceFund =>
    rw [handle, authorized_eq_ok] at h
    obtain ⟨hauth, _, h, rfl⟩ := h
    obtain ⟨hzero, rfl⟩ := Lido._setProtocolContracts_ok h
    exact .setProtocolContracts hauth hzero
  | setWithdrawalCredentials withdrawalCredentials =>
    simp only [handle, bind_eq_ok, Call.auth, require_eq_ok, exists_const] at h
    obtain ⟨hauth, h⟩ := h
    obtain ⟨_, htrim, rfl⟩ := Lido.setWithdrawalCredentials_ok h
    exact .setWithdrawalCredentials hauth htrim
  | setELRewardsVault executionLayerRewardsVault =>
    rw [handle, authorizedAlways_eq_ok] at h
    obtain ⟨hauth, rfl⟩ := h
    exact .setELRewardsVault hauth
  | setELRewardsWithdrawalLimit limitPoints =>
    rw [handle, authorized_eq_ok] at h
    obtain ⟨hauth, _, h, rfl⟩ := h
    obtain ⟨hlimit, rfl⟩ := Lido.setELRewardsWithdrawalLimit_ok h
    exact .setELRewardsWithdrawalLimit hauth hlimit
  | handleOracleReport beaconValidators beaconBalance => exact .handleOracleReport h
  | transferToVault token =>
    rcases Lido.transferToVault_ok h with ⟨rfl, hle, rfl⟩ | ⟨htoken, rfl | ⟨_, _, _, ht, rfl⟩⟩
    · exact .etherRecovered hle
    · exact .tokenRecovered htoken
    · exact .sharesRecovered htoken ht
  | transfer recipient amount =>
    rw [handle, onToken_eq_ok] at h
    obtain ⟨_, h, rfl⟩ := h
    exact .transfer h
  | approve spender amount =>
    rw [handle, onToken_eq_ok] at h
    obtain ⟨_, h, rfl⟩ := h
    exact .approve h
  | transferFrom sender recipient amount =>
    rw [handle, onToken_eq_ok] at h
    obtain ⟨_, h, rfl⟩ := h
    exact .transferFrom h
  | increaseAllowance spender addedValue =>
    rw [handle, onToken_eq_ok] at h
    obtain ⟨_, h, rfl⟩ := h
    exact .increaseAllowance h
  | decreaseAllowance spender subtractedValue =>
    rw [handle, onToken_eq_ok] at h
    obtain ⟨_, h, rfl⟩ := h
    exact .decreaseAllowance h
  | transferShares recipient sharesAmount =>
    obtain ⟨_, ht, rfl⟩ := transferShares_ok h
    exact .transferShares ht

theorem step_effect (h : step D I w e = .ok w') : Effect I w e w' := by
  cases e with
  | lido c m => exact handle_effect h
  | registry r =>
    simp only [step, bind_eq_ok, pure_eq, Except.ok.injEq] at h
    obtain ⟨_, h, rfl⟩ := h
    exact .registry h
  | forceEther amount =>
    cases h
    exact .forceEther amount
  | fundVault vault amount =>
    cases h
    exact .fundVault vault amount
  | deployVault vault lido treasury balance =>
    simp only [step, bind_eq_ok, require_eq_ok, exists_const, pure_eq, Except.ok.injEq] at h
    obtain ⟨hvault, _, hdeployed, rfl⟩ := h
    exact .deployVault hvault hdeployed

theorem step_change (hstep : step D I w e = .ok w') : Change I w e w' := by
  cases step_effect hstep with
  | fallback h | submit h => exact .paidIn (fun _ _ ↦ rfl) h
  | receiveELRewards h => exact .rewardsIn h
  | depositBufferedEther _ h | depositBufferedEtherUpTo _ h =>
    exact .deposited rfl (fun _ _ ↦ rfl) h
  | handleOracleReport h => exact .reported _ _ h
  | etherRecovered h => exact .recovered h
  | registry h => exact .registry h
  | forceEther amount => exact .forceEther amount
  | fundVault | deployVault => exact .vaults fun _ _ ↦ rfl
  | tokenRecovered htoken => exact .vaults fun _ _ ↦ if_neg htoken
  | stop | resume | pauseStaking | resumeStaking | setStakingLimit | removeStakingLimit =>
    exact .control fun _ _ ↦ rfl
  | setFee _ hfee => exact .settings (fun _ _ ↦ rfl) (fun hst ↦ { hst with fee := hfee }) rfl
  | setFeeDistribution _ hsum =>
    exact .settings (fun _ _ ↦ rfl) (fun hst ↦ { hst with distribution := .inr hsum }) rfl
  | setProtocolContracts _ h =>
    obtain ⟨ho, ht, hi⟩ := h
    exact .settings (fun _ _ ↦ rfl)
      (fun hst ↦ { hst with oracle := ho, treasury := ht, insuranceFund := hi }) rfl
  | setELRewardsVault => exact .settings (fun _ _ ↦ rfl) (fun hst ↦ { hst with }) rfl
  | setELRewardsWithdrawalLimit _ hlimit =>
    exact .settings (fun _ _ ↦ rfl) (fun hst ↦ { hst with limit := hlimit }) rfl
  | setWithdrawalCredentials _ htrim => exact .credentials htrim
  | sharesRecovered htoken h => exact .token (fun _ _ ↦ if_neg htoken) (.transferShares h)
  | transfer h => exact .token (fun _ _ ↦ rfl) (.transfer h)
  | approve h => exact .token (fun _ _ ↦ rfl) (.approve h)
  | transferFrom h => exact .token (fun _ _ ↦ rfl) (.transferFrom h)
  | increaseAllowance h => exact .token (fun _ _ ↦ rfl) (.increaseAllowance h)
  | decreaseAllowance h => exact .token (fun _ _ ↦ rfl) (.decreaseAllowance h)
  | transferShares h => exact .token (fun _ _ ↦ rfl) (.transferShares h)
  | burnShares _ h => exact .token (fun _ _ ↦ rfl) (.burnShares h)

theorem step_deposits (h : step D I w e = .ok w') : w'.deposits = w.deposits ∨
    ∃ c m n, e = .lido c m ∧ e.maxDeposits = some n ∧
      Lido._depositBufferedEther D I c n w = .ok w' := by
  cases step_change h with
  | token | control | settings | recovered | forceEther | vaults => exact .inl rfl
  | paidIn | rewardsIn | credentials | registry => exact .inl rfl
  | deposited hm _ h => exact .inr ⟨_, _, _, rfl, hm, h⟩
  | reported v b h => exact .inl (Lido.handleOracleReport_frame h).deposits

theorem step_deposits_eq (he : e.maxDeposits = none) (h : step D I w e = .ok w') :
    w'.deposits = w.deposits := by
  refine (step_deposits h).resolve_right fun hdeposit ↦ ?_
  obtain ⟨_, _, _, _, hm, _⟩ := hdeposit
  cases he.symm.trans hm

end World

end LidoDao
