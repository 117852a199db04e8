import GuardedHeap.Fault
import GuardedHeap.Heap.Placement
import GuardedHeap.Json.Address
import GuardedHeap.Json.Exact
import GuardedHeap.Json.Reader
import GuardedHeap.Program.Memory
import GuardedHeap.Program.Script
import GuardedHeap.Proofs.Act
import GuardedHeap.Proofs.Config.Language
import GuardedHeap.Proofs.Config.Options
import GuardedHeap.Proofs.EventLog.Calendar
import GuardedHeap.Proofs.EventLog.RoundTrip
import GuardedHeap.Proofs.EventLog.Timestamp
import GuardedHeap.Proofs.FakeStack
import GuardedHeap.Proofs.FakeStack.Calls
import GuardedHeap.Proofs.FakeStack.Collection
import GuardedHeap.Proofs.FakeStack.History
import GuardedHeap.Proofs.FakeStack.Lookup
import GuardedHeap.Proofs.FakeStack.Loops
import GuardedHeap.Proofs.Guard
import GuardedHeap.Proofs.Heap.Blocks
import GuardedHeap.Proofs.Heap.Chains
import GuardedHeap.Proofs.Heap.Kept
import GuardedHeap.Proofs.Heap.Large
import GuardedHeap.Proofs.Heap.Links
import GuardedHeap.Proofs.Heap.Memory
import GuardedHeap.Proofs.Heap.Outline
import GuardedHeap.Proofs.Heap.Session
import GuardedHeap.Proofs.Heap.Small
import GuardedHeap.Proofs.Heap.Spans
import GuardedHeap.Proofs.Json.RoundTrip
import GuardedHeap.Proofs.Json.Spelling
import GuardedHeap.Proofs.Marks
import GuardedHeap.Proofs.Pages
import GuardedHeap.Proofs.Quarantine
import GuardedHeap.Proofs.Quarantine.Turns
import GuardedHeap.Proofs.RangeMap
import GuardedHeap.Proofs.Redzone
import GuardedHeap.Proofs.Repeats
import GuardedHeap.Proofs.Rounding
import GuardedHeap.Proofs.Run.Accounts
import GuardedHeap.Proofs.Run.Basic
import GuardedHeap.Proofs.Run.Calls
import GuardedHeap.Proofs.Run.Contents
import GuardedHeap.Proofs.Run.Delay
import GuardedHeap.Proofs.Run.Exact
import GuardedHeap.Proofs.Run.Failures
import GuardedHeap.Proofs.Run.Frames
import GuardedHeap.Proofs.Run.Gauges
import GuardedHeap.Proofs.Run.Guards
import GuardedHeap.Proofs.Run.Ledger
import GuardedHeap.Proofs.Run.Lookup
import GuardedHeap.Proofs.Run.Nearest
import GuardedHeap.Proofs.Run.Nesting
import GuardedHeap.Proofs.Run.Refusals
import GuardedHeap.Proofs.Run.Room
import GuardedHeap.Proofs.Run.Spared
import GuardedHeap.Proofs.Run.States
import GuardedHeap.Proofs.Run.Tally
import GuardedHeap.Proofs.Run.Teardown
import GuardedHeap.Proofs.Run.Threads
import GuardedHeap.Proofs.Run.Waiting
import GuardedHeap.Proofs.Sanitizer.Allocation
import GuardedHeap.Proofs.Sanitizer.Beginning
import GuardedHeap.Proofs.Sanitizer.Blind
import GuardedHeap.Proofs.Sanitizer.Client
import GuardedHeap.Proofs.Sanitizer.Frames
import GuardedHeap.Proofs.Sanitizer.Lasting
import GuardedHeap.Proofs.Sanitizer.Registration
import GuardedHeap.Proofs.Sanitizer.Scene
import GuardedHeap.Proofs.Sanitizer.Teardown
import GuardedHeap.Proofs.Sanitizer.Threads
import GuardedHeap.Proofs.Scene.Basic
import GuardedHeap.Proofs.Scene.Deeds
import GuardedHeap.Proofs.Scene.Sound
import GuardedHeap.Proofs.Scene.Tally
import GuardedHeap.Proofs.Shadow
import GuardedHeap.Proofs.Shadow.Scan
import GuardedHeap.Proofs.Shadow.RangeMarks
import GuardedHeap.Proofs.Shadow.UserMarks
import GuardedHeap.Proofs.Shadow.Windows
import GuardedHeap.Proofs.SizeClass
import GuardedHeap.Proofs.Text.Numeral
import GuardedHeap.Proofs.Text.Utf8
import GuardedHeap.Proofs.Tight
import GuardedHeap.Proofs.Report
import GuardedHeap.Proofs.Run.Origins
import GuardedHeap.Proofs.Run.Reports
import GuardedHeap.Proofs.Heap.Outstanding
import GuardedHeap.Proofs.Run.Frees
import GuardedHeap.Proofs.Heap.Requests
import GuardedHeap.Proofs.Program.Alarms
import GuardedHeap.Proofs.Program.Lives
import GuardedHeap.Proofs.Heap.Gaps
import GuardedHeap.Proofs.SizeClass.Splines
import GuardedHeap.Proofs.SizeClass.Tables
import GuardedHeap.Proofs.Heap.Tracts
import GuardedHeap.Proofs.Heap.Regions
import GuardedHeap.Proofs.Heap.Caches
import GuardedHeap.Proofs.Heap.InWords
import GuardedHeap.Proofs.Heap.Ground
import GuardedHeap.Proofs.Kernel
