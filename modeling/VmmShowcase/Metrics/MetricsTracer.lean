import VmmShowcase.Common.Types

/-! # Metrics

`include/metrics/metrics_tracer.hpp` and `src/metrics/metrics_tracer.cpp`, without the clock that
times migrations. `operator[]` of the counters starts an unseen name at 0. -/

namespace VmmShowcase

/-- `MetricsTracer`. -/
structure MetricsTracer where
  stats : SchedulerStats := {}

namespace MetricsTracer

/-- `RecordDispatch`. -/
def recordDispatch (metrics : MetricsTracer) (vmName : CString) : MetricsTracer :=
  let counts := metrics.stats.dispatchCountByVm
  { metrics with stats.dispatchCountByVm := counts.insert vmName ((counts vmName).getD 0 + 1) }

/-- `RecordInstructions`. -/
def recordInstructions (metrics : MetricsTracer) (vmName : CString) (count : Nat) :
    MetricsTracer :=
  let counts := metrics.stats.instructionsByVm
  { metrics with stats.instructionsByVm := counts.insert vmName ((counts vmName).getD 0 + count) }

end MetricsTracer

end VmmShowcase
