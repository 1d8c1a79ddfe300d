import OneSpark.TextEdits

namespace OneSpark.PatchTexts
open TextEdits

abbrev Text := List Char

-- The string constants of patch_fp8.py and patch_ple_off.py, line by line.
def text (lines : List String) : Text := List.intercalate ['\n'] (lines.map String.toList)

def block : Text := text [
  "",
  "",
  "# ==== Q4X step 1: post-load FP8 cast of dense weights (env Q4X_FP8) ====",
  "# Weight-only FP8 e4m3, per-output-channel absmax. No calibration data needed.",
  "# Layout note: sglang's apply_fp8_linear wants weight as (K, N) with",
  "# weight_scale.numel() == weight.shape[1]; nn.Linear stores (N, K). We transpose.",
  "# Getting that backwards produces silent garbage, not an error.",
  "",
  "",
  "class Q4XFp8LinearMethod:",
  "    \"\"\"Minimal weight-only FP8 apply(). The class NAME matters: logits_processor",
  "    skips quant methods listed in _UNQUANTIZED_LM_HEAD_METHODS, and this is not",
  "    one of them, so lm_head routes through apply() instead of the bf16 matmul.\"\"\"",
  "",
  "    def __init__(self, cutlass_ok: bool):",
  "        self.cutlass_ok = cutlass_ok",
  "",
  "    def process_weights_after_loading(self, layer):",
  "        # Required: sglang's loader calls this on every module carrying a",
  "        # quant_method. Our weights are already final -- cast in load_weights.",
  "        return",
  "",
  "    def create_weights(self, *args, **kwargs):  # never used; we attach post-load",
  "        raise NotImplementedError(\"Q4XFp8LinearMethod is applied after loading\")",
  "",
  "    def apply(self, layer, x, bias=None):",
  "        from sglang.srt.layers.quantization.fp8_utils import apply_fp8_linear",
  "",
  "        return apply_fp8_linear(",
  "            input=x,",
  "            weight=layer.weight,",
  "            weight_scale=layer.weight_scale,",
  "            input_scale=None,",
  "            bias=bias,",
  "            cutlass_fp8_supported=self.cutlass_ok,",
  "            use_per_token_if_dynamic=True,",
  "        )",
  "",
  "",
  "def _q4x_fp8_targets():",
  "    import os",
  "",
  "    return \x7bt.strip() for t in os.environ.get(\"Q4X_FP8\", \"\").split(\",\") if t.strip()\x7d",
  "",
  "",
  "def _q4x_quantize_to_fp8_t(w: torch.Tensor, chunk: int = 8192):",
  "    \"\"\"(N, K) bf16 -> ((K, N) COLUMN-MAJOR fp8, (N, 1) fp32 scale).",
  "",
  "    Layout is load-bearing: the cutlass fp8 GEMM rejects a row-major B with",
  "    \"mat_b must be a column major tensor\". Build a contiguous (N, K) buffer and",
  "    return its .t() view -- strides (1, K), i.e. column major -- which is exactly",
  "    what sglang's own Fp8LinearMethod does (`Parameter(weight.t())`).",
  "    Chunked over N so we never hold a second bf16 copy.",
  "    \"\"\"",
  "    N, K = w.shape",
  "    buf = torch.empty((N, K), dtype=torch.float8_e4m3fn, device=w.device)",
  "    scales = torch.empty((N, 1), dtype=torch.float32, device=w.device)",
  "    for i in range(0, N, chunk):",
  "        j = min(i + chunk, N)",
  "        blk = w[i:j].to(torch.float32)",
  "        s = blk.abs().amax(dim=1, keepdim=True).clamp_min(1e-12) / 448.0",
  "        buf[i:j] = (blk / s).clamp_(-448.0, 448.0).to(torch.float8_e4m3fn)",
  "        scales[i:j] = s",
  "        del blk, s",
  "    out = buf.t()                      # (K, N) column-major view, no copy",
  "    assert out.stride() == (1, K), f\"expected column-major B, got \x7bout.stride()\x7d\"",
  "    return out, scales",
  "",
  "",
  "def _q4x_apply_fp8(model):",
  "    targets = _q4x_fp8_targets()",
  "    if not targets:",
  "        return",
  "    from sglang.srt.layers.quantization.fp8_utils import cutlass_fp8_supported",
  "",
  "    ok = cutlass_fp8_supported()",
  "",
  "    if \"lm_head\" in targets:",
  "        lm = getattr(model, \"lm_head\", None)",
  "        if lm is None or not hasattr(lm, \"weight\"):",
  "            logger.warning(\"Q4X_FP8: lm_head requested but not found -- SKIPPED\")",
  "        elif lm.weight.dtype == torch.float8_e4m3fn:",
  "            logger.info(\"Q4X_FP8: lm_head already fp8, nothing to do\")",
  "        else:",
  "            before = lm.weight.numel() * lm.weight.element_size()",
  "            q, s = _q4x_quantize_to_fp8_t(lm.weight.data)",
  "            lm.weight = torch.nn.Parameter(q, requires_grad=False)",
  "            lm.weight_scale = torch.nn.Parameter(s, requires_grad=False)",
  "            lm.input_scale = None",
  "            lm.quant_method = Q4XFp8LinearMethod(ok)",
  "            torch.cuda.empty_cache()",
  "            after = q.numel() * q.element_size()",
  "            # LOUD, because a silent no-op here is the whole failure mode: the",
  "            # server would serve fine at baseline speed and we would misread it",
  "            # as \"fp8 did not help\".",
  "            logger.info(",
  "                \"Q4X_FP8 ACTIVE: lm_head %s -> fp8 %s  (%.2f -> %.2f GB, cutlass=%s)\",",
  "                tuple(lm.weight_scale.shape[:1]) + (q.shape[0],),",
  "                tuple(q.shape), before / 1e9, after / 1e9, ok,",
  "            )",
  "",
  "    # --- hyper-connections: plain nn.Linear, no quant_method to swap ---",
  "    # The compute takes raw weight TENSORS, so we attach packed fp8 tuples to the",
  "    # GatedResidual module and let the patched hyperconnection.py pick them up.",
  "    # ⚠ This DISABLES the fused Triton hc_mix kernel, whose guard requires",
  "    # w.dtype == activation dtype. Expected to be a regression; measured on purpose.",
  "    if \"hyper_connection\" in targets:",
  "        n_hc = 0",
  "        for name, mod in model.named_modules():",
  "            if not hasattr(mod, \"input_mix_weight_down\"):",
  "                continue",
  "            try:",
  "                mod._q4x_down = _q4x_quantize_to_fp8_t(mod.input_mix_weight_down.weight.data)",
  "                mod._q4x_up = _q4x_quantize_to_fp8_t(mod.input_mix_weight_up.weight.data)",
  "                if getattr(mod, \"block_inject_weight\", None) is not None:",
  "                    mod._q4x_inject = _q4x_quantize_to_fp8_t(mod.block_inject_weight.weight.data)",
  "                n_hc += 1",
  "            except Exception as e:",
  "                logger.warning(\"Q4X_FP8: hyper_connection %s FAILED (%s)\", name, e)",
  "        torch.cuda.empty_cache()",
  "        if n_hc:",
  "            logger.info(",
  "                \"Q4X_FP8 ACTIVE: %d hyper-connection blocks -> fp8 \"",
  "                \"(fused Triton hc_mix is now BYPASSED for these)\", n_hc,",
  "            )",
  "        else:",
  "            logger.warning(\"Q4X_FP8: target 'hyper_connection' matched NO modules\")",
  "",
  "    # --- generic dense sweep: any sglang Linear whose qualified name matches ---",
  "    # Selected by NAME MATCH over named_modules() rather than a hardcoded list,",
  "    # and every conversion is logged, so a target that silently matches nothing",
  "    # is visible instead of being scored as \"fp8 did not help\".",
  "    module_targets = targets - \x7b\"lm_head\", \"hyper_connection\"\x7d",
  "    if module_targets:",
  "        converted, skipped, total_before, total_after = [], [], 0, 0",
  "        for name, mod in model.named_modules():",
  "            if not any(t in name for t in module_targets):",
  "                continue",
  "            w = getattr(mod, \"weight\", None)",
  "            if w is None or w.dim() != 2 or w.dtype != torch.bfloat16:",
  "                continue                      # norms (1-D), conv1d (3-D), already-quantized",
  "            qm = getattr(mod, \"quant_method\", None)",
  "            if qm is None:",
  "                # plain nn.Linear (e.g. the hyper-connections): no quant_method to",
  "                # swap, forward goes straight to F.linear. Needs a different",
  "                # mechanism -- report it rather than pretending it was done.",
  "                skipped.append((name, \"no quant_method (plain nn.Linear)\"))",
  "                continue",
  "            if type(qm).__name__ not in (\"UnquantizedLinearMethod\", \"UnquantizedEmbeddingMethod\"):",
  "                skipped.append((name, f\"already \x7btype(qm).__name__\x7d\"))",
  "                continue",
  "            before = w.numel() * w.element_size()",
  "            q, s = _q4x_quantize_to_fp8_t(w.data)",
  "            mod.weight = torch.nn.Parameter(q, requires_grad=False)",
  "            mod.weight_scale = torch.nn.Parameter(s, requires_grad=False)",
  "            mod.input_scale = None",
  "            mod.quant_method = Q4XFp8LinearMethod(ok)",
  "            total_before += before",
  "            total_after += q.numel() * q.element_size()",
  "            converted.append(name)",
  "            # Free eagerly and compact periodically: 200+ alloc/free pairs",
  "            # otherwise fragment the caching allocator and SHRINK the KV pool,",
  "            # which is sized from free memory after loading.",
  "            del w",
  "            if len(converted) % 16 == 0:",
  "                torch.cuda.empty_cache()",
  "        torch.cuda.empty_cache()",
  "        logger.info(",
  "            \"Q4X_FP8 ACTIVE: %d modules -> fp8 (%.2f -> %.2f GB, saved %.2f GB) for targets %s\",",
  "            len(converted), total_before / 1e9, total_after / 1e9,",
  "            (total_before - total_after) / 1e9, sorted(module_targets),",
  "        )",
  "        for t_ in sorted(module_targets):",
  "            n = sum(1 for c in converted if t_ in c)",
  "            if n == 0:",
  "                logger.warning(\"Q4X_FP8: target %r matched NO modules -- check the name\", t_)",
  "            else:",
  "                logger.info(\"Q4X_FP8:   %-20s %4d modules\", t_, n)",
  "        for name, why in skipped[:12]:",
  "            logger.warning(\"Q4X_FP8: SKIPPED %s (%s)\", name, why)",
  "        if len(skipped) > 12:",
  "            logger.warning(\"Q4X_FP8: ... and %d more skipped\", len(skipped) - 12)",
  "",
  "",
  "# ==== end Q4X step 1 ====",
  ""]

def anchorHook : Text := text [
  "        for module in self.modules():",
  "            if isinstance(module, Qwen3_5GatedDeltaNet):",
  "                module.finalize_fused_in_proj()",
  "",
  "        return loaded_params"]

def replaceHook : Text := text [
  "        for module in self.modules():",
  "            if isinstance(module, Qwen3_5GatedDeltaNet):",
  "                module.finalize_fused_in_proj()",
  "",
  "        _q4x_apply_fp8(self)",
  "",
  "        return loaded_params"]

def anchorBlock : Text := text ["","EntryClass = [Qwen4ExpForConditionalGeneration]"]

def helper : Text := text [
  "",
  "",
  "def _ple_off() -> bool:",
  "    \"\"\"PLE_MODE=off: no n-gram table at all. Not a speed lever -- the table is",
  "    ~5 KB/token -- but it frees 12.8 GB and answers what the table is worth.\"\"\"",
  "    import os",
  "",
  "    return os.environ.get(\"SGLANG_QWEN4_PLE_OFF\", \"0\") == \"1\"",
  "",
  ""]

def helperAnchor : Text := text ["","def _nvfp4_ple_enabled() -> bool:"]

def initAnchor : Text := text [
  "        if _hashk_path():",
  "            if getattr(config, \"ple_offload_embedding\", False):",
  "                config.ple_offload_embedding = False"]

def initNew : Text := text [
  "        if _ple_off():",
  "            if getattr(config, \"ple_offload_embedding\", False):",
  "                config.ple_offload_embedding = False",
  "            del self.ngram_embedding._parameters[\"weight\"]",
  "            torch.cuda.empty_cache()",
  "            self.ngram_embedding.ple_off = True",
  "            logger.info(",
  "                \"PLE OFF: n-gram embedding deleted, injection zeroed \"",
  "                \"(frees 12.8 GB vs hashk, 51.2 GB vs the raw checkpoint)\"",
  "            )",
  "        elif _hashk_path():",
  "            if getattr(config, \"ple_offload_embedding\", False):",
  "                config.ple_offload_embedding = False"]

def gatherAnchor : Text := text [
  "        if getattr(self.ngram_embedding, \"hashk_mode\", False):",
  "            embeddings = _hashk_gather(self.ngram_embedding, lookup_ids)"]

def gatherNew : Text := text [
  "        if getattr(self.ngram_embedding, \"ple_off\", False):",
  "            # [T, heads] -> [T, heads, head_dim] of zeros. The PLE output is added",
  "            # to the residual stream, so zeros make the whole injection a no-op.",
  "            embeddings = torch.zeros(",
  "                (*lookup_ids.shape, self.head_dim_per_ngram),",
  "                dtype=torch.bfloat16,",
  "                device=lookup_ids.device,",
  "            )",
  "        elif getattr(self.ngram_embedding, \"hashk_mode\", False):",
  "            embeddings = _hashk_gather(self.ngram_embedding, lookup_ids)"]

def loaderAnchor : Text := text [
  "            if getattr(emb, \"hashk_mode\", False):",
  "                loaded_shard_params.add(f\"\x7bmod_prefix\x7d.ngram_embedding.weight\")",
  "                return True"]

def loaderNew : Text := text [
  "            if getattr(emb, \"ple_off\", False) or getattr(emb, \"hashk_mode\", False):",
  "                # Consume and discard: the 10 model-plefp8-* shards are read off",
  "                # disk and dropped, never allocated.",
  "                loaded_shard_params.add(f\"\x7bmod_prefix\x7d.ngram_embedding.weight\")",
  "                return True"]

-- One anchored edit, and the text whose count tells that it is there already.
structure Hook where
  name : String
  edit : Edit Char
  counted : Text

def replacing (name : String) (anchor repl : Text) : Hook := ⟨name,⟨anchor,repl⟩,repl⟩

def inserting (name : String) (anchor block : Text) : Hook := ⟨name,⟨anchor,block ++ anchor⟩,block⟩

def fp8Marker : Text := "Q4X step 1".toList

def fp8Edits : List Hook := [replacing "hook" anchorHook replaceHook,inserting "block" anchorBlock block]

def pleOffMarker : Text := "_ple_off".toList

def pleOffEdits : List Hook := [replacing "helper" helperAnchor (helper ++ helperAnchor),
  replacing "init" initAnchor initNew,replacing "gather" gatherAnchor gatherNew,
  replacing "loader" loaderAnchor loaderNew]

-- A start of the counted text that overlaps neither itself nor the rest of its
-- replacement; BLOCK overlaps itself in one newline, so a part of it stands in.
structure Signature where
  hook : Hook
  core : Text

def whole (hook : Hook) : Signature := ⟨hook,hook.counted⟩

def headed (length : Nat) (hook : Hook) : Signature := ⟨hook,hook.counted.take length⟩

def signatures : List Signature := [whole (replacing "hook" anchorHook replaceHook),
  headed 39 (inserting "block" anchorBlock block),whole (replacing "helper" helperAnchor (helper ++ helperAnchor)),
  whole (replacing "init" initAnchor initNew),whole (replacing "gather" gatherAnchor gatherNew),
  whole (replacing "loader" loaderAnchor loaderNew)]

def away (x : Text) (edit : Edit Char) : Bool := apart x edit.anchor && apart x edit.repl

def fits (own : Signature) : Bool :=
  let rest := own.hook.edit.repl.drop own.core.length
  borderless own.hook.edit.anchor && borderless own.core && own.core.isPrefixOf own.hook.counted &&
    own.hook.counted.isPrefixOf own.hook.edit.repl && (rest.isEmpty || apart own.core rest) &&
    own.hook.edit.repl.all (· != '\r')

def foreign (own other : Signature) : Bool :=
  away own.core other.hook.edit && away other.core own.hook.edit && away own.hook.edit.anchor other.hook.edit &&
    apart other.hook.edit.anchor own.hook.edit.repl

def Fit (signatures : List Signature) : Prop :=
  (∀ own ∈ signatures, fits own = true) ∧ signatures.Pairwise fun own other => foreign own other = true

instance (signatures : List Signature) : Decidable (Fit signatures) := inferInstanceAs (Decidable (_ ∧ _))

-- The texts are long, so each signature and each pair of them is evaluated on its own.
set_option maxRecDepth 20000 in
theorem signatures_own : ∀ own ∈ signatures, fits own = true := by
  unfold signatures block anchorHook replaceHook anchorBlock helper helperAnchor initAnchor initNew
    gatherAnchor gatherNew loaderAnchor loaderNew text
  simp only [List.map_cons,List.map_nil]
  repeat rw [String.toList_ofList]
  repeat
    refine List.forall_mem_cons.mpr ⟨?_,?_⟩
    · decide +kernel
  exact List.forall_mem_nil _

set_option maxRecDepth 20000 in
theorem hook_foreign : ∀ other ∈ signatures.tail, foreign (whole (replacing "hook" anchorHook replaceHook)) other = true := by
  unfold signatures block anchorHook replaceHook anchorBlock helper helperAnchor initAnchor initNew
    gatherAnchor gatherNew loaderAnchor loaderNew text
  simp only [List.map_cons,List.map_nil,List.tail_cons]
  repeat rw [String.toList_ofList]
  repeat
    refine List.forall_mem_cons.mpr ⟨?_,?_⟩
    · decide +kernel
  exact List.forall_mem_nil _

set_option maxRecDepth 20000 in
theorem block_foreign : ∀ other ∈ signatures.tail.tail,
    foreign (headed 39 (inserting "block" anchorBlock block)) other = true := by
  unfold signatures block anchorHook replaceHook anchorBlock helper helperAnchor initAnchor initNew
    gatherAnchor gatherNew loaderAnchor loaderNew text
  simp only [List.map_cons,List.map_nil,List.tail_cons]
  repeat rw [String.toList_ofList]
  repeat
    refine List.forall_mem_cons.mpr ⟨?_,?_⟩
    · decide +kernel
  exact List.forall_mem_nil _

set_option maxRecDepth 20000 in
theorem pleOff_foreign : signatures.tail.tail.Pairwise fun own other => foreign own other = true := by
  unfold signatures block anchorHook replaceHook anchorBlock helper helperAnchor initAnchor initNew
    gatherAnchor gatherNew loaderAnchor loaderNew text
  simp only [List.map_cons,List.map_nil,List.tail_cons]
  repeat rw [String.toList_ofList]
  repeat
    refine List.pairwise_cons.mpr ⟨?_,?_⟩
    · repeat
        refine List.forall_mem_cons.mpr ⟨?_,?_⟩
        · decide +kernel
      exact List.forall_mem_nil _
  exact List.Pairwise.nil

theorem signatures_fit : Fit signatures :=
  ⟨signatures_own,List.pairwise_cons.mpr ⟨hook_foreign,List.pairwise_cons.mpr ⟨block_foreign,pleOff_foreign⟩⟩⟩

set_option maxRecDepth 20000 in
theorem markers_foreign : (∀ hook ∈ pleOffEdits, away fp8Marker hook.edit = true) ∧
    ∀ hook ∈ fp8Edits, away pleOffMarker hook.edit = true := by
  unfold pleOffEdits fp8Edits fp8Marker pleOffMarker block anchorHook replaceHook anchorBlock helper helperAnchor
    initAnchor initNew gatherAnchor gatherNew loaderAnchor loaderNew text
  simp only [List.map_cons,List.map_nil]
  repeat rw [String.toList_ofList]
  decide +kernel

def shows (marker : Text) (hook : Hook) : Bool := apart hook.edit.anchor hook.edit.repl || contains marker hook.counted

set_option maxRecDepth 20000 in
theorem edits_show : (∀ hook ∈ pleOffEdits, shows pleOffMarker hook = true) ∧
    ∀ hook ∈ fp8Edits, shows fp8Marker hook = true := by
  unfold pleOffEdits fp8Edits fp8Marker pleOffMarker block anchorHook replaceHook anchorBlock helper helperAnchor
    initAnchor initNew gatherAnchor gatherNew loaderAnchor loaderNew text
  simp only [List.map_cons,List.map_nil]
  repeat rw [String.toList_ofList]
  decide +kernel

set_option maxRecDepth 20000 in
theorem markers_inside : contains fp8Marker (block.take 39) = true ∧
    contains pleOffMarker (helper ++ helperAnchor) = true := by
  unfold fp8Marker pleOffMarker block helper helperAnchor text
  simp only [List.map_cons,List.map_nil]
  repeat rw [String.toList_ofList]
  decide +kernel

theorem hook_longer : anchorHook.length < replaceHook.length := by
  unfold anchorHook replaceHook text
  simp only [List.map_cons,List.map_nil]
  repeat rw [String.toList_ofList]
  decide +kernel

end OneSpark.PatchTexts
