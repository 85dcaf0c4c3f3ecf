import Spsc.Lib.Imperative
import Spsc.Lib.Buckets
import Spsc.RadixSort.Sorted
import Spsc.RadixSort.Move
import Spsc.Lib.Runs
import Spsc.Hash
import Spsc.Wire.RoundTrip
import Spsc.Jane.Retry
import Spsc.Thor.Answers
import Spsc.Exchange
import Spsc.Session
import Spsc.Allocator.Fixed
import Spsc.Allocator.Conserved
import Spsc.Allocator.Sequential
import Spsc.Allocator.Single
import Spsc.Session.Hearing
import Spsc.Session.Thor
import Spsc.Session.Line
import Spsc.Session.Delivery
import Spsc.Session.Order
import Spsc.Session.Duplicates
import Spsc.Session.Tampered
import Spsc.Session.Rejection
import Spsc.Allocator.Taken
import Spsc.Wire.Payload
import Spsc.Wire.Delimited
import Spsc.Thor.Interference
import Spsc.Threads
import Spsc.IniParser.Layout
import Spsc.IniParser.Accepted
import Spsc.Q.Traffic
import Spsc.Substring.Exact
import Spsc.Substring.Inside
import Spsc.Wire.Bounded
import Spsc.Thor.Region
import Spsc.IniParser.Values
import Spsc.Lib.Transducer
import Spsc.IniParser.Reader
import Spsc.IniParser.Lines
import Spsc.RadixSort.Overflow
import Spsc.Allocator.Overflow
import Spsc.Hash.Digits
import Spsc.Hash.Verification
import Spsc.IniParser.Tokens
import Spsc.IniParser.Calls
import Spsc.IniParser.Consumed
import Spsc.Wire.Acknowledged
import Spsc.Session.Phases
import Spsc.Session.Completion
import Spsc.Thor.Statistics
import Spsc.Session.Stalled
import Spsc.IniParser.Decision
import Spsc.IniParser.Written
import Spsc.Program
import Spsc.Lib.Slots
import Spsc.Allocator.Slabs
import Spsc.Lib.SpinLock
import Spsc.Threads.Instructions
import Spsc.Session.Succession
import Spsc.Thor.OutputFile
import Spsc.Session.Verdicts
import Spsc.RadixSort.Exact
import Spsc.RadixSort.Reverse
import Spsc.Session.Hanging
import Spsc.Session.Genuine
import Spsc.Session.Strcpy
import Spsc.Wire.Strcpy
