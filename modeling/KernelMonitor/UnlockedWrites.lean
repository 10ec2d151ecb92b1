import KernelMonitor.CollectorRuns

/-! # What a sweep writes unlocked

`collect` runs without the lock. All it writes that the main thread reads is
`last_scan_ms`, at its very end; everything else changes in the locked section.
-/

namespace KernelMonitor

open Library

end KernelMonitor
