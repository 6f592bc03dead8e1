import AlfredProcessing.Llm.Client

namespace AlfredProcessing.Llm.Tiers

open Lib.Json Extract.Changes Client

section Model

/-- The arguments that `LLM` is called with, where `api_base` is what `base_url` is. -/
structure LlmKwargs where
  model : Value
  temperature : Value
  maxTokens : Value
  timeout : Value
  apiKey : Option Value
  baseUrl : Option Value
  numCtx : Option Int

/-- `v > n`. -/
def exceeds (v : Value) (n : Int) : Except Raised Bool :=
  match v with
  | .bool b => .ok (decide (n < if b then 1 else 0))
  | .int m => .ok (decide (n < m))
  | .float m e => .ok (decide (n * Int.pow 10 (-e).toNat < m * Int.pow 10 e.toNat))
  | .nonFinite x => .ok (decide (x = .inf))
  | _ => .error .typeError

def isOllama : Value → Except Raised Bool
  | .str s => .ok (ollamaPrefix.isPrefixOf s)
  | _ => .error .attributeError

def given (v : Value) : Option Value := if v.truthy then some v else none

def capTokens (ollama : Bool) (maxTokens : Value) : Except Raised Value :=
  if ollama then do
    let large ← exceeds maxTokens 4096
    return if large then .int 4096 else maxTokens
  else .ok maxTokens

variable (w : World)

/-- `_resolve_llm`. -/
def resolveLlm (cfg : Dict) : Except Raised LlmKwargs := do
  let model := w.setting cfg "llm_model" "FALLBACK_LLM_MODEL" "ollama/llama3.1"
  let ollama ← isOllama model
  let maxTokens ← capTokens ollama ((get (str "llm_max_tokens") cfg).getD (.int 4096))
  let numCtx ← w.int (pyOr (pyGet cfg "llm_num_ctx") (.int 0))
  return {
    model
    temperature := (get (str "llm_temperature") cfg).getD (.float 1 (-1))
    maxTokens
    timeout := (get (str "llm_timeout") cfg).getD (.int 300)
    apiKey := given (w.setting cfg "llm_api_key" "FALLBACK_LLM_API_KEY" "")
    baseUrl := given (w.setting cfg "llm_base_url" "FALLBACK_LLM_BASE_URL" "")
    numCtx := if 0 < numCtx then some numCtx else if ollama then some 8192 else none }

def overridden (cfg : Dict) (tierModel : Str) (tierNumCtx : Int) : Dict :=
  let tierConfig := insert (str "llm_model") (.str tierModel) cfg
  if 0 < tierNumCtx then insert (str "llm_num_ctx") (.int tierNumCtx) tierConfig else tierConfig

/-- `_resolve_llm_for_tier`. -/
def resolveLlmForTier (cfg : Dict) (tier : Option Str) : Except Raised LlmKwargs := do
  let (tierModel, tierNumCtx) ← w.tierConfig cfg tier
  if tierModel = [] then resolveLlm w cfg else resolveLlm w (overridden cfg tierModel tierNumCtx)

end Model

section Agreement

variable {w : World} {cfg : Dict} {tier : Option Str} {llm : LlmKwargs}

theorem setting_eq (cfg : Dict) (key fallback : String) (default : String) :
    (given (w.setting cfg key fallback "")).getD (.str (str default)) = w.setting cfg key fallback default := by
  rw [given, World.setting, World.setting, pyOr, pyOr]
  by_cases hkey : (pyGet cfg key).truthy
  · rw [if_pos hkey, if_pos hkey, if_pos hkey, Option.getD_some]
  · rw [if_neg hkey, if_neg hkey]
    cases henv : (w.environ fallback).filter (· ≠ []) with
    | none => rfl
    | some s =>
      have hs : s ≠ [] := by simpa using (Option.filter_eq_some_iff.mp henv).2
      have htruthy : (Value.str s).truthy = true := by simpa [Value.truthy] using hs
      rw [Option.getD_some, Option.getD_some, if_pos htruthy, Option.getD_some]

theorem pyGet_overridden {key : String} (cfg : Dict) (tierModel : Str) (tierNumCtx : Int)
    (hmodel : str "llm_model" ≠ str key) (hnumCtx : str "llm_num_ctx" ≠ str key) :
    pyGet (overridden cfg tierModel tierNumCtx) key = pyGet cfg key := by
  unfold overridden pyGet
  dsimp only
  split_ifs
  · rw [get_insert, if_neg hnumCtx, get_insert, if_neg hmodel]
  · rw [get_insert, if_neg hmodel]

theorem resolveLlm_model (h : resolveLlm w cfg = .ok llm) :
    llm.model = w.setting cfg "llm_model" "FALLBACK_LLM_MODEL" "ollama/llama3.1" ∧
      llm.baseUrl = given (w.setting cfg "llm_base_url" "FALLBACK_LLM_BASE_URL" "") ∧
      ∃ numCtx, w.int (pyOr (pyGet cfg "llm_num_ctx") (.int 0)) = .ok numCtx ∧
        (0 < numCtx → llm.numCtx = some numCtx) := by
  obtain ⟨ollama, -, h⟩ := Lib.Fallible.bind_eq_ok.mp h
  obtain ⟨maxTokens, -, h⟩ := Lib.Fallible.bind_eq_ok.mp h
  obtain ⟨numCtx, hnumCtx, h⟩ := Lib.Fallible.bind_eq_ok.mp h
  cases h
  exact ⟨rfl, rfl, numCtx, hnumCtx, fun hpos => if_pos hpos⟩

theorem resolveLlmForTier_agrees (h : resolveLlmForTier w cfg tier = .ok llm) : ∃ numCtx,
    resolveOllamaConfigForTier w cfg tier =
      .ok (llm.model, llm.baseUrl.getD (.str (str "http://localhost:11434")), numCtx) ∧
    (0 < numCtx → llm.numCtx = some numCtx) := by
  obtain ⟨⟨tierModel, tierNumCtx⟩, htier, h⟩ := Lib.Fallible.bind_eq_ok.mp h
  rw [resolveOllamaConfigForTier, htier]
  dsimp only [bind, Except.bind] at h ⊢
  split_ifs at h ⊢ with hempty
  · obtain ⟨hmodel, hbase, numCtx, hnumCtx, hpos⟩ := resolveLlm_model h
    refine ⟨numCtx, ?_, hpos⟩
    rw [hnumCtx, hmodel, hbase, setting_eq]
    rfl
  · obtain ⟨hmodel, hbase, numCtx, hnumCtx, hpos⟩ := resolveLlm_model h
    have hkeys : str "llm_num_ctx" ≠ str "llm_model" ∧ str "llm_model" ≠ str "llm_base_url" ∧
        str "llm_num_ctx" ≠ str "llm_base_url" := by decide
    have hgiven : pyGet (overridden cfg tierModel tierNumCtx) "llm_model" = .str tierModel := by
      unfold overridden pyGet
      dsimp only
      split_ifs
      · rw [get_insert, if_neg hkeys.1, get_insert, if_pos rfl, Option.getD_some]
      · rw [get_insert, if_pos rfl, Option.getD_some]
    have htruthy : (Value.str tierModel).truthy = true := by simpa [Value.truthy] using hempty
    refine ⟨tierNumCtx, ?_, fun htierPos => ?_⟩
    · have hsame : llm.baseUrl = given (w.setting cfg "llm_base_url" "FALLBACK_LLM_BASE_URL" "") := by
        rw [hbase, World.setting, pyGet_overridden cfg tierModel tierNumCtx hkeys.2.1 hkeys.2.2, World.setting]
      have hown : llm.model = .str tierModel := by
        unfold World.setting at hmodel
        rw [hmodel, hgiven, pyOr, if_pos htruthy]
      rw [hsame, setting_eq, hown]
      rfl
    · have hown : pyGet (overridden cfg tierModel tierNumCtx) "llm_num_ctx" = .int tierNumCtx := by
        rw [overridden, if_pos htierPos, pyGet, get_insert, if_pos rfl, Option.getD_some]
      have hnonzero : (Value.int tierNumCtx).truthy = true := by
        simpa [Value.truthy] using Int.ne_of_gt htierPos
      rw [hown, pyOr, if_pos hnonzero] at hnumCtx
      cases hnumCtx
      exact hpos htierPos

end Agreement

end AlfredProcessing.Llm.Tiers
